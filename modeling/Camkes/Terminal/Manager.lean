import Camkes.Machine.Basic
import Mathlib.Data.Int.Notation
import Mathlib.Logic.Function.Basic

/-!
# The Manager component of the terminal application

Each of two clients may write to its own region of one terminal.  `put_char` prints a border the
first time and then the colour of the domain, the character and a reset.  The interface of each
domain has a thread of its own, so the printed sequences of the two interleave.

`TERMINAL_WIDTH` and `TERMINAL_HEIGHT` come from a generated file; they are parameters.
-/

namespace Camkes.Terminal

/-! ### Configuration -/

inductive Domain
  | domain1
  | domain2
  deriving DecidableEq

/-- The colours in the control sequences `DOMAIN1_COLOUR` and `DOMAIN2_COLOUR`. -/
inductive Colour
  | magenta
  | yellow
  deriving DecidableEq

/-- The location, dimension and colour of a domain. -/
structure Region where
  x : ℤ
  y : ℤ
  width : ℕ
  height : ℕ
  colour : Colour

/-- `DOMAIN1_X` up to `DOMAIN1_COLOUR`, and the same for the other domain. -/
def Domain.region : Domain → Region
  | .domain1 => { x := 3, y := 3, width := 15, height := 10, colour := .magenta }
  | .domain2 => { x := 20, y := 20, width := 15, height := 10, colour := .yellow }

/-- `ESC`. -/
def esc : UInt8 := 27

/-! ### What is printed -/

/-- One call of `printf`. -/
inductive Printf
  | colour (c : Colour)
  -- `RESET_ATTRIBUTES`
  | reset
  -- a jump to a position, and a character
  | writeChar (x y : ℤ) (c : UInt8)
  deriving DecidableEq

/-- A `write_char` of `borderise` with its bounds check. -/
def borderChar (termWidth termHeight i j : ℤ) (c : UInt8) : List Printf :=
  if 0 ≤ i ∧ 0 ≤ j ∧ i ≤ termWidth ∧ j ≤ termHeight then [.writeChar i j c] else []

/-- The characters that `borderise` writes: the corners, then the four sides. -/
def borderChars (termWidth termHeight : ℤ) (r : Region) : List Printf :=
  let char := borderChar termWidth termHeight
  char (r.x - 1) (r.y - 1) 43 ++ char (r.x + r.width) (r.y - 1) 43 ++
    char (r.x - 1) (r.y + r.height) 43 ++ char (r.x + r.width) (r.y + r.height) 43 ++
    (List.range r.width).flatMap (fun k : ℕ => char (r.x + k) (r.y - 1) 45) ++
    (List.range r.height).flatMap (fun k : ℕ => char (r.x - 1) (r.y + k) 124) ++
    (List.range r.width).flatMap (fun k : ℕ => char (r.x + k) (r.y + r.height) 45) ++
    (List.range r.height).flatMap (fun k : ℕ => char (r.x + r.width) (r.y + k) 124)

/-- `borderise`. -/
def borderise (termWidth termHeight : ℤ) (r : Region) : List Printf :=
  .colour r.colour :: borderChars termWidth termHeight r ++ [.reset]

/-- The positions that are written, with the characters. -/
def writes (printed : List Printf) : List (ℤ × ℤ × UInt8) :=
  printed.filterMap fun
    | .writeChar x y c => some (x, y, c)
    | .colour _ | .reset => none

/-- The body of `domain1_put_char` and `domain2_put_char`: the new value of `border`, what is
printed, and the return value. -/
def putChar (termWidth termHeight : ℤ) (r : Region) (border : Bool) (x y : ℤ) (data : UInt8) :
    Bool × List Printf × ℤ :=
  let drawn := if border then [] else borderise termWidth termHeight r
  -- prevent clients sending control sequences
  if data = esc then (true, drawn, -1)
  -- the coordinates are out of bounds
  else if x < 0 ∨ y < 0 ∨ x ≥ r.width ∨ y ≥ r.height ∨ x + r.x ≥ termWidth ∨
      y + r.height ≥ termHeight then (true, drawn, -1)
  else
    (true, drawn ++ [.colour r.colour, .writeChar (r.x + x) (r.y + y) data, .reset], 0)

/-- `domain1_put_char`. -/
def domain1PutChar (termWidth termHeight : ℤ) : Bool → ℤ → ℤ → UInt8 → Bool × List Printf × ℤ :=
  putChar termWidth termHeight Domain.domain1.region

/-- `domain2_put_char`. -/
def domain2PutChar (termWidth termHeight : ℤ) : Bool → ℤ → ℤ → UInt8 → Bool × List Printf × ℤ :=
  putChar termWidth termHeight Domain.domain2.region

/-! ### The terminal and the two threads -/

/-- A character on the display. -/
structure Shown where
  x : ℤ
  y : ℤ
  c : UInt8
  -- none after a reset
  colour : Option Colour
  deriving DecidableEq

/-- The thread of an interface. -/
structure Thread where
  -- the static variable `border`
  border : Bool
  -- what the current call has still to print
  pending : List Printf

structure System where
  thread : Domain → Thread
  -- the colour that characters are displayed in
  colour : Option Colour
  -- the domain whose thread was the last to print a colour or a reset
  lastAttribute : Option Domain
  shown : List Shown

def System.init : System where
  thread _ := { border := false, pending := [] }
  colour := none
  lastAttribute := none
  shown := []

inductive Event
  -- a client calls `put_char`
  | call (d : Domain) (x y : ℤ) (data : UInt8)
  -- the thread of a domain makes its next call of `printf`
  | print (d : Domain)

/-- The `put_char` of a domain. -/
def Domain.putChar (d : Domain) (termWidth termHeight : ℤ) :
    Bool → ℤ → ℤ → UInt8 → Bool × List Printf × ℤ :=
  match d with
  | .domain1 => domain1PutChar termWidth termHeight
  | .domain2 => domain2PutChar termWidth termHeight

/-- What a `printf` by the thread of domain `d` does to the terminal. -/
def System.output (s : System) (d : Domain) : Printf → System
  | .colour c => { s with colour := some c, lastAttribute := some d }
  | .reset => { s with colour := none, lastAttribute := some d }
  | .writeChar x y c => { s with shown := s.shown ++ [{ x, y, c, colour := s.colour }] }

def System.setThread (s : System) (d : Domain) (thread : Thread) : System :=
  { s with thread := Function.update s.thread d thread }

def System.step (termWidth termHeight : ℤ) (s : System) : Event → Option System
  | .call d x y data =>
    let (border, pending, _) := d.putChar termWidth termHeight (s.thread d).border x y data
    some (s.setThread d { border, pending })
  | .print d =>
    match (s.thread d).pending with
    | [] => none
    | p :: pending => some ((s.setThread d { s.thread d with pending }).output d p)

/-- A client calls when its last call has returned. -/
def machine (termWidth termHeight : ℤ) : Machine System Event where
  ok s
    | .call d _ _ _ => (s.thread d).pending = []
    | .print d => (s.thread d).pending ≠ []
  step := System.step termWidth termHeight

instance decidable_machine_ok (termWidth termHeight : ℤ) (s : System) (e : Event) :
    Decidable ((machine termWidth termHeight).ok s e) :=
  match e with
  | .call _ _ _ _ => inferInstanceAs (Decidable (_ = _))
  | .print _ => inferInstanceAs (Decidable (_ ≠ _))

/-! ### Positions -/

/-- The position lies in the region. -/
def Region.contains (r : Region) (x y : ℤ) : Prop :=
  r.x ≤ x ∧ x < r.x + r.width ∧ r.y ≤ y ∧ y < r.y + r.height

instance (r : Region) (x y : ℤ) : Decidable (r.contains x y) :=
  inferInstanceAs (Decidable (_ ∧ _ ∧ _ ∧ _))

/-- The position lies in the terminal. -/
def InTerminal (termWidth termHeight x y : ℤ) : Prop :=
  0 ≤ x ∧ x < termWidth ∧ 0 ≤ y ∧ y < termHeight

instance (termWidth termHeight x y : ℤ) : Decidable (InTerminal termWidth termHeight x y) :=
  inferInstanceAs (Decidable (_ ∧ _ ∧ _ ∧ _))

/-! ### Colours -/

/-- A character in the region of a domain has that domain's colour. -/
def Shown.RightColour (ch : Shown) : Prop :=
  ∀ d : Domain, d.region.contains ch.x ch.y → ch.colour = some d.region.colour

/-- When a thread prints the character of a call, its own colour has been the last colour or reset
on the terminal: the other thread has printed neither since. -/
def unmixed (s : System) : Event → Prop
  | .call _ _ _ _ => True
  | .print d => ∀ x y c, (s.thread d).pending.head? = some (.writeChar x y c) →
    d.region.contains x y → s.lastAttribute = some d

end Camkes.Terminal
