import Camkes.Aeroplage.Basic
import Camkes.Aeroplage.Chars
import Mathlib.Data.List.ProdSigma
import Mathlib.Logic.Function.Basic

/-!
# The VESA driver

`VESADriver` draws the characters of each domain into a window of its own.  The coordinates are
unsigned integers that stay far below their bound, so they are natural numbers here.

A failing assertion and an access outside a bitmap make the functions fail (`none`).
-/

namespace Camkes.Aeroplage

/-! ### Drawing -/

/-- `CHAR_WIDTH`. -/
def charWidth : ℕ := 14

/-- `CHAR_HEIGHT`. -/
def charHeight : ℕ := 26

/-- A call of `bga_set_pixel`. -/
structure SetPixel where
  x : ℕ
  y : ℕ
  white : Bool
  deriving DecidableEq

/-- The bits of a row of a bitmap, padded to a byte boundary. -/
def rowWidth : ℕ := if charWidth % 8 ≠ 0 then charWidth + (8 - charWidth % 8) else charWidth

/-- The body of the loops of `draw`. -/
def drawPixel (x y : ℕ) (pixels : List UInt8) (i j : ℕ) : Option SetPixel := do
  let block ← pixels[(j + i * rowWidth) / 8]?
  let offset := (j + i * rowWidth) % 8
  some { x := x + j, y := y + i, white := block &&& (1 <<< UInt8.ofNat offset) ≠ 0 }

/-- Draw a character at `(x, y)`. -/
def draw (x y : ℕ) (c : UInt8) : Option (List SetPixel) := do
  -- `assert(pixels != NULL)`
  let pixels ← toPixels c
  (List.range charHeight ×ˢ List.range charWidth).mapM fun (i, j) => drawPixel x y pixels i j

/-! ### The windows -/

/-- `WIDTH`. -/
def windowWidth : ℕ := 312

/-- `HEIGHT`. -/
def windowHeight : ℕ := 300

def printable (c : UInt8) : Bool :=
  let c := Char.ofNat c.toNat
  ('A' ≤ c ∧ c ≤ 'Z') ∨ ('a' ≤ c ∧ c ≤ 'z') ∨ c = ' ' ∨ ('0' ≤ c ∧ c ≤ '9')

/-- The static variables of `write_low` or `write_high`. -/
structure Cursor where
  x : ℕ
  y : ℕ
  deriving DecidableEq

/-- What `write_low` and `write_high` do: lines start at `left` and end before `right`. -/
def writeChar (left right : ℕ) (cursor : Cursor) (c : UInt8) :
    Option (Cursor × List SetPixel) :=
  if ¬ printable c then some (cursor, [])
  else if 100 + windowHeight - charHeight ≤ cursor.y then some (cursor, [])
  else do
    let pixels ← draw cursor.x cursor.y c
    let x := cursor.x + charWidth
    if right ≤ x then some ({ x := left, y := cursor.y + charHeight }, pixels)
    else some ({ cursor with x }, pixels)

/-- Write a character to the low domain. -/
def writeLow : Cursor → UInt8 → Option (Cursor × List SetPixel) :=
  writeChar (100 + 2) (100 + windowWidth - 3)

def Cursor.initLow : Cursor where
  x := 100 + 2
  y := 100 + 4 + charHeight

/-- Write a character to the high domain. -/
def writeHigh : Cursor → UInt8 → Option (Cursor × List SetPixel) :=
  writeChar (200 + windowWidth + 2) (200 + 2 * windowWidth - 3)

def Cursor.initHigh : Cursor where
  x := 200 + windowWidth + 2
  y := 100 + 4 + charHeight

/-! ### The screen -/

/-- A call of `write_low` or `write_high` with the pixels that it has set. -/
structure Written where
  domain : Domain
  char : UInt8
  pixels : List SetPixel
  deriving DecidableEq

structure Screen where
  cursor : Domain → Cursor
  written : List Written

def Screen.init : Screen where
  cursor
    | .low => .initLow
    | .high => .initHigh
  written := []

/-- `write_low` or `write_high`. -/
def Domain.write : Domain → Cursor → UInt8 → Option (Cursor × List SetPixel)
  | .low => writeLow
  | .high => writeHigh

/-- A character from one of the inputs. -/
def Screen.write (s : Screen) (d : Domain) (c : UInt8) : Option Screen := do
  let (cursor, pixels) ← d.write (s.cursor d) c
  some { cursor := Function.update s.cursor d cursor, written := s.written ++ [⟨d, c, pixels⟩] }

/-- Characters from both inputs, in the order in which they come. -/
def Screen.writeAll (s : Screen) (calls : List (Domain × UInt8)) : Option Screen :=
  calls.foldlM (fun s call => s.write call.1 call.2) s

end Camkes.Aeroplage
