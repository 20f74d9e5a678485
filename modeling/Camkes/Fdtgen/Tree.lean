import Camkes.Fdtgen.Basic

/-!
# Device trees

What `dump_blob` is for: a device tree, its encoding in a blob, and its text.

A blob begins with a header (`FdtHeader`), and has a memory reservation block and a structure block.
For the latter there are two levels.  It is a sequence of tokens (`TokensAt`), each of which is
printed on a line of its own (`renderTokens`), whether they nest or not.  A tree (`Contents`) is
encoded as tokens that do nest, and printed as such (`Contents.render`).

The text is not always source from which the tree can be made again: of a list of strings only the
first one is printed (`renderData`).
-/

namespace Camkes.Fdtgen

open Printf (hex hexPad)

/-! ### Values -/

/-- Strings of printable characters, each with its NUL; `inside` says that a string has begun. -/
def stringsFrom : Bool → List UInt8 → Bool
  | inside, [] => !inside
  | inside, c :: l =>
    if inside && c = 0 then stringsFrom false l else isprint c && stringsFrom true l

def stringList (l : List UInt8) : Bool := !l.isEmpty && stringsFrom false l

/-- The same as a property: strings, at least one and none of them empty, each with its NUL. -/
def IsStringList (l : List UInt8) : Prop :=
  ∃ ss : List (List UInt8), ss ≠ [] ∧ (∀ s ∈ ss, s ≠ [] ∧ ∀ c ∈ s, isprint c) ∧
    l = ss.flatMap (· ++ [0])

def renderCells : List UInt8 → List Char
  | c₀ :: c₁ :: c₂ :: c₃ :: l =>
    "0x".toList ++ hexPad 8 (fdt32ToCpu c₀ c₁ c₂ c₃) ++ (if l = [] then [] else [' ']) ++
      renderCells l
  | _ => []

def renderBytes : List UInt8 → List Char
  | [] => []
  | c :: l => hexPad 2 c.toUInt32 ++ (if l = [] then [] else [' ']) ++ renderBytes l

/-- The text for the value of a property: nothing if it is empty, the first string if it is a list
of printable strings, otherwise cells if its length is a multiple of 4, and bytes if not. -/
def renderData (l : List UInt8) : List Char :=
  if l = [] then []
  else if stringList l then " = \"".toList ++ text (l.takeWhile (· ≠ 0)) ++ "\"".toList
  else if l.length % 4 = 0 then " = <".toList ++ renderCells l ++ ">".toList
  else " = [".toList ++ renderBytes l ++ "]".toList

/-! ### The header and the reservations -/

def cell (x : ℕ) : List UInt8 := BigEndian.bytes 4 x

/-- `struct fdt_header`; the last three fields are there from version 2, 3 and 17 on. -/
structure FdtHeader where
  magic : UInt32
  totalsize : UInt32
  offDtStruct : UInt32
  offDtStrings : UInt32
  offMemRsvmap : UInt32
  version : UInt32
  lastCompVersion : UInt32
  bootCpuidPhys : UInt32
  sizeDtStrings : UInt32
  sizeDtStruct : UInt32

/-- A line of the comment that the dump begins with. -/
def comment (label : String) (value : List Char) : List Char :=
  label.toList ++ value ++ "\n".toList

namespace FdtHeader

def encode (f : FdtHeader) : List UInt8 :=
  cell f.magic.toNat ++ cell f.totalsize.toNat ++ cell f.offDtStruct.toNat ++
    cell f.offDtStrings.toNat ++ cell f.offMemRsvmap.toNat ++ cell f.version.toNat ++
    cell f.lastCompVersion.toNat ++
    (if f.version ≥ 2 then cell f.bootCpuidPhys.toNat else []) ++
    (if f.version ≥ 3 then cell f.sizeDtStrings.toNat else []) ++
    (if f.version ≥ 17 then cell f.sizeDtStruct.toNat else [])

/-- The text for the header. -/
def render (f : FdtHeader) : List Char :=
  "/dts-v1/;\n".toList ++
    comment "// magic:\t\t0x" (hex f.magic) ++
    "// totalsize:\t\t0x".toList ++ hex f.totalsize ++ " (".toList ++ dec f.totalsize ++
      ")\n".toList ++
    comment "// off_dt_struct:\t0x" (hex f.offDtStruct) ++
    comment "// off_dt_strings:\t0x" (hex f.offDtStrings) ++
    comment "// off_mem_rsvmap:\t0x" (hex f.offMemRsvmap) ++
    comment "// version:\t\t" (dec f.version) ++
    comment "// last_comp_version:\t" (dec f.lastCompVersion) ++
    (if f.version ≥ 2 then comment "// boot_cpuid_phys:\t0x" (hex f.bootCpuidPhys) else []) ++
    (if f.version ≥ 3 then comment "// size_dt_strings:\t0x" (hex f.sizeDtStrings) else []) ++
    (if f.version ≥ 17 then comment "// size_dt_struct:\t0x" (hex f.sizeDtStruct) else []) ++
    "\n".toList

end FdtHeader

/-- The memory reservation block, which ends with an entry of zeros. -/
def encodeRsvmap (entries : List (UInt64 × UInt64)) : List UInt8 :=
  (entries.flatMap fun e => BigEndian.bytes 8 e.1.toNat ++ BigEndian.bytes 8 e.2.toNat) ++
    BigEndian.bytes 8 0 ++ BigEndian.bytes 8 0

/-- The line for an entry, with address and size in hexadecimal. -/
def renderReservation (e : UInt64 × UInt64) : List Char :=
  "/memreserve/ ".toList ++ Nat.toDigits 16 e.1.toNat ++ " ".toList ++
    Nat.toDigits 16 e.2.toNat ++ ";\n".toList

/-! ### Tokens -/

inductive Token
  | beginNode (name : List UInt8)
  | endNode
  | nop
  | prop (name data : List UInt8)
  deriving DecidableEq

/-- The depth after a token. -/
def Token.depth (d : ℤ) : Token → ℤ
  | beginNode _ => d + 1
  | endNode => d - 1
  | nop => d
  | prop _ _ => d

def renderName (name : List UInt8) : List Char := if name = [] then "/".toList else text name

/-- The line for a token. -/
def Token.render (d : ℤ) : Token → List Char
  | beginNode name => blanks (d * shift) ++ renderName name ++ " \x7b\n".toList
  | endNode => blanks ((d - 1) * shift) ++ "\x7d;\n".toList
  | nop => blanks (d * shift) ++ "// [NOP]\n".toList
  | prop name data => blanks (d * shift) ++ text name ++ renderData data ++ ";\n".toList

def renderTokens : ℤ → List Token → List Char
  | _, [] => []
  | d, t :: ts => t.render d ++ renderTokens (t.depth d) ts

/-- Where the value of a property is, which comes after a head that ends at `p`. -/
def valueAt (version p : UInt32) (len : ℕ) : UInt32 :=
  if version < 16 ∧ 8 ≤ len then palign p 8 else p

/-- A token is at `p`, and the next one is at `q`. -/
inductive TokenAt (b : Block) (version pStrings : UInt32) : UInt32 → Token → UInt32 → Prop
  | beginNode {p : UInt32} {name : List UInt8} (tag : getCell b p = some (fdtBeginNode, p + 4))
      (hname : cstring b (p + 4) = some name) :
      TokenAt b version pStrings p (.beginNode name)
        (palign (p + 4 + UInt32.ofNat name.length + 1) 4)
  | endNode {p : UInt32} (tag : getCell b p = some (fdtEndNode, p + 4)) :
      TokenAt b version pStrings p .endNode (p + 4)
  | nop {p : UInt32} (tag : getCell b p = some (fdtNop, p + 4)) :
      TokenAt b version pStrings p .nop (p + 4)
  | prop {p nameoff : UInt32} {name data : List UInt8}
      (tag : getCell b p = some (fdtProp, p + 4))
      (hlen : getCell b (p + 4) = some (UInt32.ofNat data.length, p + 4 + 4))
      (hnameoff : getCell b (p + 4 + 4) = some (nameoff, p + 4 + 4 + 4))
      (hname : cstring b (pStrings + nameoff) = some name)
      (length_lt : data.length < 2 ^ 31)
      (hdata : data <+: b.mem (valueAt version (p + 4 + 4 + 4) data.length)) :
      TokenAt b version pStrings p (.prop name data)
        (palign (valueAt version (p + 4 + 4 + 4) data.length + UInt32.ofNat data.length) 4)

/-- The tokens from `p` to `q`. -/
inductive TokensAt (b : Block) (version pStrings : UInt32) :
    UInt32 → List Token → UInt32 → Prop
  | nil (p : UInt32) : TokensAt b version pStrings p [] p
  | cons {p q r : UInt32} {t : Token} {ts : List Token} (head : TokenAt b version pStrings p t q)
      (tail : TokensAt b version pStrings q ts r) : TokensAt b version pStrings p (t :: ts) r

/-- If there is a property at `p`, its size is not negative as an `int`. -/
def SizeNonneg (b : Block) (p : UInt32) : Prop :=
  ∀ size, getCell b p = some (fdtProp, p + 4) → getCell b (p + 4) = some (size, p + 4 + 4) →
    size.toNat < 2 ^ 31

/-- No property that the tokens from `p` on lead to has a negative size. -/
def SizesNonneg (b : Block) (version pStrings p : UInt32) : Prop :=
  ∀ ts q, TokensAt b version pStrings p ts q → SizeNonneg b q

/-- A property of negative size at `q`, behind which the tokens lead to `q` again. -/
def LeadsBack (b : Block) (version pStrings q : UInt32) : Prop :=
  ∃ size nameoff name data ts,
    getCell b q = some (fdtProp, q + 4) ∧
    getCell b (q + 4) = some (size, q + 4 + 4) ∧ size.toInt32.toInt < 0 ∧
    getCell b (q + 4 + 4) = some (nameoff, q + 4 + 4 + 4) ∧
    cstring b (pStrings + nameoff) = some name ∧
    printData b (q + 4 + 4 + 4) size.toInt32.toInt = some data ∧
    TokensAt b version pStrings (palign (q + 4 + 4 + 4 + UInt32.ofInt size.toInt32.toInt) 4) ts q

/-- How a dump ends where `tag` comes after the tokens, at the depth `d`: with nothing on `stderr`,
or with a message there. -/
inductive Ends (d : ℤ) : UInt32 → List Char → Prop
  | normally : Ends d 9 []
  | unknown {tag : UInt32} (h : tag ∉ [1, 2, 3, 4, 9]) :
      Ends d tag
        (blanks (d * shift) ++ " ** Unknown tag 0x".toList ++ hexPad 8 tag ++ "\n".toList)

/-- The blob has a header, reservations and a sequence of tokens, and `out` is their text. -/
def Dumps (b : Block) (out : Output) : Prop :=
  ∃ (f : FdtHeader) (entries : List (UInt64 × UInt64)) (ts : List Token) (q tag : UInt32),
    f.encode <+: b.bytes ∧
    (∀ e ∈ entries, e ≠ (0, 0)) ∧ encodeRsvmap entries <+: b.mem (b.base + f.offMemRsvmap) ∧
    TokensAt b f.version (b.base + f.offDtStrings) (b.base + f.offDtStruct) ts q ∧
    getCell b q = some (tag, q + 4) ∧ Ends (ts.foldl Token.depth 0) tag out.stderr ∧
    out.stdout = f.render ++ entries.flatMap renderReservation ++ renderTokens 0 ts

/-! ### Trees -/

structure Name where
  bytes : List UInt8
  notMem : 0 ∉ bytes

structure Value where
  bytes : List UInt8
  length_lt : bytes.length < 2 ^ 31

/-- The contents of a node, or of a structure block. -/
inductive Contents
  | nil
  | nop (rest : Contents)
  | prop (nameoff : UInt32) (name : Name) (value : Value) (rest : Contents)
  | node (name : Name) (body rest : Contents)

namespace Contents

def tokens : Contents → List Token
  | nil => []
  | nop rest => .nop :: rest.tokens
  | prop _ name value rest => .prop name.bytes value.bytes :: rest.tokens
  | node name body rest => .beginNode name.bytes :: (body.tokens ++ .endNode :: rest.tokens)

/-- The text, with nodes indented. -/
def render (d : ℕ) : Contents → List Char
  | nil => []
  | nop rest => List.replicate (4 * d) ' ' ++ "// [NOP]\n".toList ++ rest.render d
  | prop _ name value rest =>
    List.replicate (4 * d) ' ' ++ text name.bytes ++ renderData value.bytes ++ ";\n".toList ++
      rest.render d
  | node name body rest =>
    List.replicate (4 * d) ' ' ++ renderName name.bytes ++ " \x7b\n".toList ++
      body.render (d + 1) ++ List.replicate (4 * d) ' ' ++ "\x7d;\n".toList ++ rest.render d

/-- The names of the properties are in the strings block. -/
def HasNames (b : Block) (pStrings : UInt32) : Contents → Prop
  | nil => True
  | nop rest => rest.HasNames b pStrings
  | prop nameoff name _ rest =>
    cstring b (pStrings + nameoff) = some name.bytes ∧ rest.HasNames b pStrings
  | node _ body rest => body.HasNames b pStrings ∧ rest.HasNames b pStrings

end Contents

/-! ### Encodings -/

/-- Zeros from `n` to the next multiple of `a`. -/
def padding (n a : ℕ) : List UInt8 := List.replicate ((n + (a - 1)) / a * a - n) 0

def encodeBegin (name : Name) : List UInt8 :=
  cell 1 ++ name.bytes ++ [0] ++ padding (name.bytes.length + 1) 4

/-- A property at the address `a`; before version 16 (`old`) a long value is aligned to 8. -/
def encodeProp (old : Bool) (a : ℕ) (nameoff : UInt32) (value : Value) : List UInt8 :=
  cell 3 ++ cell value.bytes.length ++ cell nameoff.toNat ++
    (if old ∧ 8 ≤ value.bytes.length then padding (a + 12) 8 else []) ++ value.bytes ++
    padding value.bytes.length 4

/-- The encoding of contents at the address `a`. -/
def Contents.encode (old : Bool) : ℕ → Contents → List UInt8
  | _, nil => []
  | a, nop rest => cell 4 ++ rest.encode old (a + 4)
  | a, prop nameoff _ value rest =>
    let entry := encodeProp old a nameoff value
    entry ++ rest.encode old (a + entry.length)
  | a, node name body rest =>
    let head := encodeBegin name
    let inner := body.encode old (a + head.length)
    head ++ inner ++ cell 2 ++ rest.encode old (a + head.length + inner.length + 4)

/-- The blob `b` is the flattened device tree with the header `f`. -/
structure Flattened (b : Block) (f : FdtHeader) (entries : List (UInt64 × UInt64))
    (tree : Contents) : Prop where
  header : f.encode <+: b.bytes
  entries_ne : ∀ e ∈ entries, e ≠ (0, 0)
  rsvmap : encodeRsvmap entries <+: b.mem (b.base + f.offMemRsvmap)
  offDtStruct_aligned : f.offDtStruct.toNat % 4 = 0
  struct : tree.encode (f.version < 16) (b.base + f.offDtStruct).toNat ++ cell 9 <+:
    b.mem (b.base + f.offDtStruct)
  names : tree.HasNames b (b.base + f.offDtStrings)

end Camkes.Fdtgen
