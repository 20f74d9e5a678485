import Camkes.Data.CArray

/-!
# The text terminal of vgatest

`VGADriver` writes characters to the buffer of a VGA text mode of 80 columns and 25 rows.  The
coordinates are `size_t` and stay far below its bound, so they are natural numbers here; a store
outside the buffer fails (`none`).
-/

namespace Camkes.Vgatest

/-- `enum vga_color`. -/
inductive VgaColor
  | black | blue | green | cyan | red | magenta | brown | lightGrey
  | darkGrey | lightBlue | lightGreen | lightCyan | lightRed | lightMagenta | lightBrown | white
  deriving DecidableEq

def VgaColor.code : VgaColor → UInt8
  | black => 0
  | blue => 1
  | green => 2
  | cyan => 3
  | red => 4
  | magenta => 5
  | brown => 6
  | lightGrey => 7
  | darkGrey => 8
  | lightBlue => 9
  | lightGreen => 10
  | lightCyan => 11
  | lightRed => 12
  | lightMagenta => 13
  | lightBrown => 14
  | white => 15

def vgaEntryColor (fg bg : VgaColor) : UInt8 := fg.code ||| bg.code <<< 4

def vgaEntry (uc color : UInt8) : UInt16 := uc.toUInt16 ||| color.toUInt16 <<< 8

/-- `VGA_WIDTH`. -/
def vgaWidth : ℕ := 80

/-- `VGA_HEIGHT`. -/
def vgaHeight : ℕ := 25

structure Terminal where
  row : ℕ
  column : ℕ
  color : UInt8
  buffer : Vector UInt16 (vgaWidth * vgaHeight)
  deriving DecidableEq

/-- The color that the terminal starts with. -/
def initialColor : UInt8 := vgaEntryColor .lightGrey .black

/-- `vga_entry(' ', terminal_color)`, with which the terminal is filled. -/
def blank : UInt16 := vgaEntry 32 initialColor

/-- `terminal_initialize`, for what is in the buffer. -/
def terminalInitialize (buffer : Vector UInt16 (vgaWidth * vgaHeight)) : Option Terminal := do
  let buffer ← (List.range vgaHeight).foldlM (fun buffer y =>
    (List.range vgaWidth).foldlM (fun buffer x =>
      CArray.store buffer (y * vgaWidth + x) blank) buffer) buffer
  some { row := 0, column := 0, color := initialColor, buffer := buffer }

def terminalSetcolor (t : Terminal) (color : UInt8) : Terminal := { t with color := color }

def terminalPutentryat (t : Terminal) (c color : UInt8) (x y : ℕ) : Option Terminal := do
  let buffer ← CArray.store t.buffer (y * vgaWidth + x) (vgaEntry c color)
  some { t with buffer := buffer }

def terminalPutchar (t : Terminal) (c : UInt8) : Option Terminal := do
  let t ← terminalPutentryat t c t.color t.column t.row
  if t.column + 1 = vgaWidth then
    if t.row + 1 = vgaHeight then some { t with column := 0, row := 0 }
    else some { t with column := 0, row := t.row + 1 }
  else some { t with column := t.column + 1 }

/-- `terminal_write`, for the `size` bytes at `data`. -/
def terminalWrite (t : Terminal) (data : List UInt8) : Option Terminal :=
  data.foldlM terminalPutchar t

/-! ### Calls -/

/-- A call that the component makes. -/
inductive Call
  | setcolor (color : UInt8)
  | write (data : List UInt8)

def Call.exec (t : Terminal) : Call → Option Terminal
  | setcolor color => some (terminalSetcolor t color)
  | write data => terminalWrite t data

/-- Some calls, after `terminal_initialize`. -/
def session (buffer : Vector UInt16 (vgaWidth * vgaHeight)) (calls : List Call) :
    Option Terminal := do
  let t ← terminalInitialize buffer
  calls.foldlM Call.exec t

/-! ### What should be on the screen -/

/-- All characters that the calls write, in order, each with the color of the terminal at that time,
if it starts with `color`. -/
def written (color : UInt8) : List Call → List (UInt8 × UInt8)
  | [] => []
  | .setcolor color :: calls => written color calls
  | .write data :: calls => data.map (fun c => (c, color)) ++ written color calls

/-- The character is in the low byte of the cell, and its color is in the high byte. -/
def Displays (cell : UInt16) (w : UInt8 × UInt8) : Prop :=
  cell.toNat % 256 = w.1.toNat ∧ cell.toNat / 256 = w.2.toNat

end Camkes.Vgatest
