import Camkes.Data.Block
import Camkes.Data.Printf
import Camkes.Data.WhileLoop

/-!
# The device tree dump of `fdtgen`

`dump_blob` of `fdt_utils.c` prints a flattened device tree as device tree source.  The blob is a
block that `malloc` has returned, pointers are its 32-bit addresses (the application is built for
one Arm platform only, where `char` is unsigned), and a read outside the block is a failure
(`none`).

The structure block is read by a loop that nothing but the blob bounds, so it is a `WhileLoop`.
-/

namespace Camkes.Fdtgen

open Printf (hex hexPad)

/-! ### Reading -/

/-- `FDT_ALIGN` -/
def fdtAlign (x a : UInt32) : UInt32 := (x + (a - 1)) &&& ~~~(a - 1)

/-- `PALIGN` -/
def palign (p a : UInt32) : UInt32 := fdtAlign p a

/-- `*p` -/
def byte (b : Block) (p : UInt32) : Option UInt8 := (b.mem p).head?

/-- The string that `p` points to, without its NUL. -/
def cstring (b : Block) (p : UInt32) : Option (List UInt8) := CString.read (b.mem p)

def fdt32ToCpu (c₀ c₁ c₂ c₃ : UInt8) : UInt32 := UInt32.ofNat (BigEndian.value [c₀, c₁, c₂, c₃])

/-- `fdt32_to_cpu(GET_CELL(p))`, and `p` after it. -/
def getCell (b : Block) (p : UInt32) : Option (UInt32 × UInt32) :=
  match b.mem p with
  | c₀ :: c₁ :: c₂ :: c₃ :: _ => some (fdt32ToCpu c₀ c₁ c₂ c₃, p + 4)
  | _ => none

/-- `fdt64_to_cpu(*p)` -/
def fdt64ToCpu (b : Block) (p : UInt32) : Option UInt64 :=
  let cs := (b.mem p).take 8
  if cs.length = 8 then some (UInt64.ofNat (BigEndian.value cs)) else none

/-! ### Printing -/

/-- `%s` -/
def text (s : List UInt8) : List Char := s.map fun c => Char.ofNat c.toNat

/-- `%d` -/
def dec (x : UInt32) : List Char := (toString x.toInt32.toInt).toList

/-- `%*s` for the empty string; a negative width pads on the other side. -/
def blanks (width : ℤ) : List Char := List.replicate width.natAbs ' '

/-! ### Strings -/

/-- `isprint` -/
def isprint (c : UInt8) : Bool := 0x20 ≤ c && c ≤ 0x7e

/-- The inner loop of `util_is_printable_string` where `se - s` is `left`: how many bytes it goes
on. -/
def printableSpan (b : Block) : ℕ → UInt32 → Option ℕ
  | 0, _ => some 0
  | left + 1, s => do
    let c ← byte b s
    if c ≠ 0 ∧ isprint c then (printableSpan b left (s + 1)).map (· + 1) else some 0

/-- The outer loop of `util_is_printable_string`. -/
def printableLoop (b : Block) (left : ℕ) (s : UInt32) : Option Bool :=
  if left = 0 then some true
  else do
    let k ← printableSpan b left s
    let c ← byte b (s + UInt32.ofNat k)
    if c ≠ 0 ∨ k = 0 then some false
    else printableLoop b (left - (k + 1)) (s + UInt32.ofNat k + 1)
termination_by left

def utilIsPrintableString (b : Block) (data : UInt32) (len : ℤ) : Option Bool :=
  if len = 0 then some false
  else do
    let last ← byte b (data + UInt32.ofInt (len - 1))
    if last ≠ 0 then some false else printableLoop b len.toNat data

/-! ### Property values -/

/-- The loop over the cells. -/
def printCells (b : Block) (len i : ℤ) (p : UInt32) : Option (List Char) :=
  if i < len then do
    let (cell, p) ← getCell b p
    let rest ← printCells b len (i + 4) p
    some ("0x".toList ++ hexPad 8 cell ++ (if i < len - 4 then [' '] else []) ++ rest)
  else some []
termination_by (len - i).toNat

/-- The loop over the bytes. -/
def printBytes (b : Block) (len i : ℤ) (p : UInt32) : Option (List Char) :=
  if i < len then do
    let c ← byte b p
    let rest ← printBytes b len (i + 1) (p + 1)
    some (hexPad 2 c.toUInt32 ++ (if i < len - 1 then [' '] else []) ++ rest)
  else some []
termination_by (len - i).toNat

def printData (b : Block) (data : UInt32) (len : ℤ) : Option (List Char) :=
  if len = 0 then some []
  else do
    if ← utilIsPrintableString b data len then
      let s ← cstring b data
      some (" = \"".toList ++ text s ++ "\"".toList)
    else if len.tmod 4 = 0 then
      let cells ← printCells b len 0 data
      some (" = <".toList ++ cells ++ ">".toList)
    else
      let bytes ← printBytes b len 0 data
      some (" = [".toList ++ bytes ++ "]".toList)

/-! ### The header -/

/-- `fdt32_to_cpu(bph->…)` for the field with this index in `struct fdt_header`. -/
def headerField (b : Block) (i : ℕ) : Option UInt32 :=
  (getCell b (b.base + UInt32.ofNat (4 * i))).map Prod.fst

/-- The variables of `dump_blob` that are set from the header. -/
structure Header where
  offMemRsvmap : UInt32
  offDt : UInt32
  offStr : UInt32
  version : UInt32
  totalsize : UInt32
  deriving DecidableEq

def readHeader (b : Block) : Option Header := do
  let offMemRsvmap ← headerField b 4
  let offDt ← headerField b 2
  let offStr ← headerField b 3
  let version ← headerField b 5
  let totalsize ← headerField b 1
  some { offMemRsvmap, offDt, offStr, version, totalsize }

/-- The comments that are printed for the header. -/
def printHeader (b : Block) (h : Header) : Option (List Char) := do
  let magic ← headerField b 0
  let lastCompVersion ← headerField b 6
  let bootCpuidPhys ←
    if h.version ≥ 2 then
      (headerField b 7).map fun x => "// boot_cpuid_phys:\t0x".toList ++ hex x ++ "\n".toList
    else some []
  let sizeDtStrings ←
    if h.version ≥ 3 then
      (headerField b 8).map fun x => "// size_dt_strings:\t0x".toList ++ hex x ++ "\n".toList
    else some []
  let sizeDtStruct ←
    if h.version ≥ 17 then
      (headerField b 9).map fun x => "// size_dt_struct:\t0x".toList ++ hex x ++ "\n".toList
    else some []
  some ("/dts-v1/;\n".toList ++
    "// magic:\t\t0x".toList ++ hex magic ++ "\n".toList ++
    "// totalsize:\t\t0x".toList ++ hex h.totalsize ++ " (".toList ++ dec h.totalsize ++
      ")\n".toList ++
    "// off_dt_struct:\t0x".toList ++ hex h.offDt ++ "\n".toList ++
    "// off_dt_strings:\t0x".toList ++ hex h.offStr ++ "\n".toList ++
    "// off_mem_rsvmap:\t0x".toList ++ hex h.offMemRsvmap ++ "\n".toList ++
    "// version:\t\t".toList ++ dec h.version ++ "\n".toList ++
    "// last_comp_version:\t".toList ++ dec lastCompVersion ++ "\n".toList ++
    bootCpuidPhys ++ sizeDtStrings ++ sizeDtStruct ++ "\n".toList)

/-! ### The memory reservations -/

/-- The text for an entry of the memory reservation block. -/
def memreserve (addr size : UInt64) : List Char :=
  "/memreserve/ ".toList ++ Nat.toDigits 16 addr.toNat ++ " ".toList ++
    Nat.toDigits 16 size.toNat ++ ";\n".toList

/-- A round of the loop over `p_rsvmap`, with `p` the address of `p_rsvmap[i]` and the output. -/
def rsvmapBody (b : Block) : UInt32 × List Char → Option ((UInt32 × List Char) ⊕ List Char)
  | (p, out) => do
    let addr ← fdt64ToCpu b p
    let size ← fdt64ToCpu b (p + 8)
    if addr = 0 ∧ size = 0 then some (.inr out)
    else some (.inl (p + 16, out ++ memreserve addr size))

/-! ### The structure block -/

def fdtBeginNode : UInt32 := 1

def fdtEndNode : UInt32 := 2

def fdtProp : UInt32 := 3

def fdtNop : UInt32 := 4

def fdtEnd : UInt32 := 9

/-- The variables of the loop, and what it has printed. -/
structure Cursor where
  p : UInt32
  depth : ℤ
  stdout : List Char
  deriving DecidableEq

structure Output where
  stdout : List Char
  stderr : List Char
  deriving DecidableEq

/-- `shift` -/
def shift : ℤ := 4

/-- The indentation. -/
def Cursor.indent (c : Cursor) : List Char := blanks (c.depth * shift)

/-- The branch for `FDT_BEGIN_NODE`, with `p` behind the tag. -/
def structBeginNode (b : Block) (c : Cursor) (p : UInt32) : Option Cursor := do
  let s ← cstring b p
  some {
    p := palign (p + UInt32.ofNat s.length + 1) 4
    depth := c.depth + 1
    stdout := c.stdout ++ c.indent ++ (if s = [] then "/".toList else text s) ++ " \x7b\n".toList }

/-- The branch for `FDT_END_NODE`. -/
def structEndNode (c : Cursor) (p : UInt32) : Cursor where
  p := p
  depth := c.depth - 1
  stdout := c.stdout ++ blanks ((c.depth - 1) * shift) ++ "\x7d;\n".toList

/-- The branch for `FDT_NOP`. -/
def structNop (c : Cursor) (p : UInt32) : Cursor where
  p := p
  depth := c.depth
  stdout := c.stdout ++ c.indent ++ "// [NOP]\n".toList

/-- The rest of the loop, which is for `FDT_PROP`. -/
def structProp (b : Block) (version pStrings : UInt32) (c : Cursor) (p : UInt32) :
    Option Cursor := do
  let (size, p) ← getCell b p
  let sz := size.toInt32.toInt
  let (nameoff, p) ← getCell b p
  let t := if version < 16 ∧ sz ≥ 8 then palign p 8 else p
  let s ← cstring b (pStrings + nameoff)
  let data ← printData b t sz
  some {
    p := palign (t + UInt32.ofInt sz) 4
    depth := c.depth
    stdout := c.stdout ++ c.indent ++ text s ++ data ++ ";\n".toList }

/-- A round of the loop over the structure block. -/
def structBody (b : Block) (version pStrings : UInt32) (c : Cursor) :
    Option (Cursor ⊕ Output) := do
  let (tag, p) ← getCell b c.p
  if tag = fdtEnd then some (.inr { stdout := c.stdout, stderr := [] })
  else if tag = fdtBeginNode then (structBeginNode b c p).map .inl
  else if tag = fdtEndNode then some (.inl (structEndNode c p))
  else if tag = fdtNop then some (.inl (structNop c p))
  else if tag ≠ fdtProp then
    some (.inr {
      stdout := c.stdout
      stderr := c.indent ++ " ** Unknown tag 0x".toList ++ hexPad 8 tag ++ "\n".toList })
  else (structProp b version pStrings c p).map .inl

/-! ### The dump -/

/-- `dump_blob`, with at most `rounds` rounds of each loop: what it prints. -/
def dumpBlob (b : Block) (rounds : ℕ) : WhileLoop.Result Output := do
  let h ← .ofOption (readHeader b)
  let header ← .ofOption (printHeader b h)
  let rsvmap ← WhileLoop.run (rsvmapBody b) rounds (b.base + h.offMemRsvmap, [])
  let out ← WhileLoop.run (structBody b h.version (b.base + h.offStr)) rounds
    { p := b.base + h.offDt, depth := 0, stdout := [] }
  .done { out with stdout := header ++ rsvmap ++ out.stdout }

end Camkes.Fdtgen
