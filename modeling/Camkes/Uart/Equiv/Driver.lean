import Camkes.Uart.Driver

/-!
# What `uart` sends and prints

Whatever the registers contain, the driver has sent as many characters of the message as it has seen
the transmitter empty, and then the client has printed every character that has been received, up to
the first `q` (`message_and_console`).
-/

namespace Camkes.Uart

open Polling

/-- The characters that have been received. -/
def received (rs : List Reading) : List UInt8 :=
  (rs.filter uartReceived).map fun r => (r.rx &&& rxMask).toUInt8

theorem uartWrite_eq (data : List UInt8) (rs : List Reading) :
    uartWrite data rs = putAll isTransmitEmpty data rs := by
  induction data generalizing rs with
  | nil => rfl
  | cons c data ih =>
    have hih : uartWrite data = putAll isTransmitEmpty data := funext ih
    rw [uartWrite, hih]
    rfl

theorem received_of_uartGetChar_eq_none {rs : List Reading} (h : uartGetChar rs = none) :
    received rs = [] := by
  induction rs with
  | nil => rfl
  | cons r rs ih =>
    rw [uartGetChar] at h
    split_ifs at h with hr
    rw [received, List.filter_cons_of_neg hr]
    exact ih h

theorem received_of_uartGetChar {rs rest : List Reading} {c : UInt8}
    (h : uartGetChar rs = some (c, rest)) : received rs = c :: received rest := by
  induction rs with
  | nil => cases h
  | cons r rs ih =>
    rw [uartGetChar] at h
    split_ifs at h with hr
    · obtain ⟨rfl, rfl⟩ := Prod.mk.inj (Option.some.inj h)
      rw [received, List.filter_cons_of_pos hr]
      rfl
    · rw [received, List.filter_cons_of_neg hr]
      exact ih h

theorem readLoop_eq (rs : List Reading) :
    readLoop rs = (upTo 'q'.toUInt8 (received rs), decide ('q'.toUInt8 ∈ received rs)) := by
  induction rs using readLoop.induct with
  | case1 rs h =>
    rw [readLoop, received_of_uartGetChar_eq_none h]
    split
    · rfl
    · next heq => simp [h] at heq
  | case2 rs rest h =>
    rw [readLoop, received_of_uartGetChar h, upTo_cons, if_pos rfl]
    split
    · next heq => simp [h] at heq
    · next heq =>
      obtain ⟨rfl, rfl⟩ := Prod.mk.inj (Option.some.inj (h.symm.trans heq))
      simp
  | case3 rs c rest h hq hlt ih =>
    rw [readLoop, received_of_uartGetChar h, upTo_cons, if_neg hq]
    split
    · next heq => simp [h] at heq
    · next heq =>
      obtain ⟨rfl, rfl⟩ := Prod.mk.inj (Option.some.inj (h.symm.trans heq))
      rw [if_neg hq, ih]
      simp [Ne.symm hq]

/-- **The message and the console** -/
theorem message_and_console (rs : List Reading) :
    (run rs).sent = str.take (rs.countP isTransmitEmpty) ∧
    match afterReady isTransmitEmpty str.length rs with
    | none => (run rs).printed = [] ∧ (run rs).exited = false
    | some rest => (run rs).printed = upTo 'q'.toUInt8 (received rest) ∧
        ((run rs).exited = true ↔ 'q'.toUInt8 ∈ received rest) := by
  have hwrite := (uartWrite_eq str rs).trans (putAll_eq _ _)
  rw [run, hwrite]
  cases afterReady isTransmitEmpty str.length rs with
  | none => exact ⟨rfl, rfl, rfl⟩
  | some rest =>
    refine ⟨rfl, ?_⟩
    simp only [readLoop_eq]
    exact ⟨trivial, decide_eq_true_iff⟩

end Camkes.Uart
