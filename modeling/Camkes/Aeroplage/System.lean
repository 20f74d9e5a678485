import Camkes.Aeroplage.Basic
import Camkes.Machine.Basic
import Mathlib.Logic.Function.Basic

/-!
# The multilevel terminal: the components on their ring buffers

`KeyboardDriver`, `Switch`, the two `MockLinux` and `VESADriver` run concurrently; an event is one
step of one of them.  A ring buffer is the list of the characters in it, the oldest first.  A
component that waits in `rb_receive_byte` for a character, or in `sel4keyboard_get_scancode` for a
scancode, cannot step.
-/

namespace Camkes.Aeroplage

/-! ### State -/

/-- What lies between the switch and the screen for one domain. -/
structure Side where
  -- the ring buffer from the switch
  text : List UInt8
  -- the character that `MockLinux` has received and not yet transmitted
  linux : Option UInt8
  -- the ring buffer to `VESADriver`
  video : List UInt8
  -- the characters passed to `write_low` or `write_high`
  written : List UInt8

structure System where
  -- what the keyboard will send
  scancodes : List ℤ
  driver : KeyboardDriver
  -- the ring buffer from the driver to the switch
  text : List UInt8
  selected : Domain
  -- the character that `Switch` has received and not yet handled
  switch : Option UInt8
  side : Domain → Side
  -- the input that `VESADriver` polls next
  polls : Domain

def System.init (scancodes : List ℤ) : System where
  scancodes
  driver := .init
  text := []
  selected := .low
  switch := none
  side _ := { text := [], linux := none, video := [], written := [] }
  polls := .low

def System.setSide (s : System) (d : Domain) (side : Side) : System :=
  { s with side := Function.update s.side d side }

/-! ### Steps -/

/-- `rb_poll_byte`: the oldest character, or zero when there is none. -/
def rbPollByte : List UInt8 → UInt8 × List UInt8
  | [] => (0, [])
  | c :: buf => (c, buf)

/-- The components. -/
inductive Event
  | keyboardDriver
  | switch
  | mockLinux (d : Domain)
  | vesaDriver
  deriving DecidableEq

def stepKeyboardDriver (codeToChar : List ℤ → UInt8) (s : System) : Option System :=
  match s.scancodes with
  | [] => none
  | c :: scancodes =>
    let r := s.driver.scancode codeToChar c
    some { s with scancodes, driver := r.1, text := s.text ++ r.2.toList }

def stepSwitch (s : System) : Option System :=
  match s.switch with
  | none =>
    match s.text with
    | [] => none
    | c :: text => some { s with text, switch := some c }
  | some c =>
    match handleChar s.selected c with
    | (selected, none) => some { s with selected, switch := none }
    | (selected, some d) =>
      some ({ s with selected, switch := none }.setSide d
        { s.side d with text := (s.side d).text ++ [c] })

def stepMockLinux (d : Domain) (s : System) : Option System :=
  let side := s.side d
  match side.linux with
  | none =>
    match side.text with
    | [] => none
    | c :: text => some (s.setSide d { side with text, linux := some c })
  | some c => some (s.setSide d { side with linux := none, video := side.video ++ [c] })

/-- One of the two polls in the loop of `VESADriver`. -/
def stepVesaDriver (s : System) : Option System :=
  let side := s.side s.polls
  let (c, video) := rbPollByte side.video
  let written := if c ≠ 0 then side.written ++ [c] else side.written
  let polls : Domain := if s.polls = .low then .high else .low
  some ({ s with polls }.setSide s.polls { side with video, written })

def System.step (codeToChar : List ℤ → UInt8) (s : System) : Event → Option System
  | .keyboardDriver => stepKeyboardDriver codeToChar s
  | .switch => stepSwitch s
  | .mockLinux d => stepMockLinux d s
  | .vesaDriver => stepVesaDriver s

/-- Every component that does not wait may step. -/
def machine (codeToChar : List ℤ → UInt8) : Machine System Event where
  ok s e := (s.step codeToChar e).isSome
  step := System.step codeToChar

instance decidable_machine_ok (codeToChar : List ℤ → UInt8) (s : System) (e : Event) :
    Decidable ((machine codeToChar).ok s e) :=
  inferInstanceAs (Decidable ((s.step codeToChar e).isSome = true))

/-! ### Processed streams -/

/-- The characters on their way from the switch to the screen, the oldest first. -/
def Side.inFlight (side : Side) : List UInt8 := side.video ++ (side.linux.toList ++ side.text)

/-- The characters that the switch has still to handle. -/
def System.unswitched (codeToChar : List ℤ → UInt8) (s : System) : List UInt8 :=
  s.switch.toList ++ (s.text ++ emitted codeToChar s.driver s.scancodes)

/-- The whole stream of scancodes has been processed. -/
structure System.Processed (s : System) : Prop where
  scancodes : s.scancodes = []
  text : s.text = []
  switch : s.switch = none
  side : ∀ d, (s.side d).inFlight = []

end Camkes.Aeroplage
