import Camkes.Data.Demux
import Mathlib.Data.Int.Notation

/-!
# The multilevel terminal: keyboard driver and switch

`KeyboardDriver` turns scancodes into characters, and `Switch` sends each character to the domain
that is selected; a TAB selects the other one.

`sel4keyboard_code_to_char` is a parameter: what it returns is a function of the scancodes that have
been passed to it so far, the current one last.
-/

namespace Camkes.Aeroplage

/-! ### KeyboardDriver -/

/-- The static variables of the main loop. -/
structure KeyboardDriver where
  escapeCode : ℤ
  escapeState : ℤ
  breakCode : ℤ
  -- the scancodes passed to `sel4keyboard_code_to_char`
  passed : List ℤ

def KeyboardDriver.init : KeyboardDriver where
  escapeCode := 0
  escapeState := 0
  breakCode := 0
  passed := []

/-- The end of the loop body, for the scancode of a released key: the character to transmit. -/
def KeyboardDriver.transmit (codeToChar : List ℤ → UInt8) (k : KeyboardDriver) (c : ℤ) :
    KeyboardDriver × Option UInt8 :=
  let passed := k.passed ++ [c]
  let c1 := codeToChar passed
  ({ k with passed }, if c1 ≠ 0 then some c1 else none)

/-- The loop body of `run` for a scancode, with the character that it transmits. -/
def KeyboardDriver.scancode (codeToChar : List ℤ → UInt8) (k : KeyboardDriver) (c : ℤ) :
    KeyboardDriver × Option UInt8 :=
  if c = 0xf0 then ({ k with breakCode := 0xf0 }, none)
  else if c = 0xe0 ∨ c = 0xe1 then ({ k with escapeCode := c, escapeState := 0 }, none)
  else if k.escapeCode = 0xe1 then
    -- need to ignore two scancodes
    if k.escapeState + 1 = 2 then
      ({ k with escapeState := k.escapeState + 1, escapeCode := 0, breakCode := 0 }, none)
    else ({ k with escapeState := k.escapeState + 1 }, none)
  else if k.escapeCode = 0xe0 then ({ k with breakCode := 0, escapeCode := 0 }, none)
  -- key down
  else if k.breakCode = 0 then ({ k with breakCode := 0, escapeCode := 0 }, none)
  else { k with breakCode := 0, escapeCode := 0 }.transmit codeToChar c

/-- The characters that the driver transmits for a stream of scancodes. -/
def emitted (codeToChar : List ℤ → UInt8) (k : KeyboardDriver) : List ℤ → List UInt8
  | [] => []
  | c :: scancodes =>
    let r := k.scancode codeToChar c
    r.2.toList ++ emitted codeToChar r.1 scancodes

/-! ### Switch -/

/-- The outputs of the switch; `selected` has one of them as its value. -/
inductive Domain
  | low
  | high
  deriving DecidableEq

/-- `SWITCH_CHAR`. -/
def switchChar : UInt8 := 9

/-- The loop body of `run` for a character: the new value of `selected`, and the output that the
character is transmitted to. -/
def handleChar (selected : Domain) (c : UInt8) : Domain × Option Domain :=
  if c = switchChar then
    if selected = .low then (.high, none) else (.low, none)
  else if selected = .low then (selected, some .low)
  else (selected, some .high)

/-- Characters other than `SWITCH_CHAR` leave the selection alone. -/
theorem handleChar_fst_of_snd {selected d : Domain} {c : UInt8}
    (h : (handleChar selected c).2 = some d) : (handleChar selected c).1 = selected := by
  unfold handleChar at h ⊢
  split_ifs at h ⊢ <;> rfl

/-- The switch as a reader of a stream that selects where it goes. -/
def switchDemux : Demux UInt8 Domain Domain where
  dest selected c := (handleChar selected c).2
  next selected c := (handleChar selected c).1
  next_of_dest := handleChar_fst_of_snd

end Camkes.Aeroplage
