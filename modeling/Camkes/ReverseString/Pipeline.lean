import Camkes.Data.CArray
import Camkes.ReverseString.Process

/-!
# The pipelines of strings

In `hierarchical-components` and `multiassembly` a string goes through Append, UpperCase and
Reverse, one component after the other.  A `Pipeline` is the three of them; `multiassembly` has one,
and `hierarchical-components` two in a row.

A component gets the string at the start of what the one before it passes on.
-/

namespace Camkes.ReverseString

/-- The argument of `process` in the component that gets these characters. -/
def Str.ofPassed (passed : List UInt8) : Str :=
  ⟨passed.takeWhile (· ≠ 0), fun h => by simpa using List.mem_takeWhile_imp h⟩

/-! ### UpperCase -/

/-- `TO_UPPER_DIST` -/
def toUpperDist : UInt8 := 'A'.toUInt8 - 'a'.toUInt8

def upperChar (c : UInt8) : UInt8 :=
  if 'a'.toUInt8 ≤ c ∧ c ≤ 'z'.toUInt8 then c + toUpperDist else c

/-- The loop; it is `none` when it runs out of the copy. -/
def upperLoop : List UInt8 → Option (List UInt8)
  | [] => none
  | c :: str => if c = 0 then some (c :: str) else (upperLoop str).map (upperChar c :: ·)

/-- What `i_process` of UpperCase passes to `o_process`. -/
def UpperCase.iProcess (arg : Str) : Option (List UInt8) := do
  let str ← upperLoop (arg.val ++ [0])
  CString.read str

/-! ### Append -/

/-- `BUF_SIZE` -/
def appendBufSize : ℕ := 128

/-- The attribute of the components. -/
def stringToAppend : List UInt8 := "world".toList.map Char.toUInt8

/-- `snprintf(buf, BUF_SIZE, "%s%s", str, string_to_append)`: it is `none` when the length of what
it has to write is not an `int`, since then nothing is known about the buffer. -/
def Append.snprintf (buf : Vector UInt8 appendBufSize) (str : List UInt8) :
    Option (Vector UInt8 appendBufSize) :=
  if (str ++ stringToAppend).length < 2 ^ 31 then
    CArray.memcpy buf ((str ++ stringToAppend).take (appendBufSize - 1) ++ [0])
  else
    none

/-- What `i_process` of Append passes to `o_process`; `buf` is what it finds on its stack. -/
def Append.iProcess (buf : Vector UInt8 appendBufSize) (str : Str) : Option (List UInt8) := do
  let buf ← Append.snprintf buf str.val
  CString.read buf.toList

/-! ### The systems -/

/-- What Reverse passes on for the argument of Append. -/
def pipeline (buf : Vector UInt8 appendBufSize) (str : Str) : Option (List UInt8) := do
  let appended ← Append.iProcess buf str
  let upper ← UpperCase.iProcess (.ofPassed appended)
  process (.ofPassed upper)

/-- What the server of `multiassembly` gets to print when the client passes `str`. -/
def Multiassembly.printed (buf : Vector UInt8 appendBufSize) (str : Str) : Option (List UInt8) := do
  let passed ← pipeline buf str
  some (Str.ofPassed passed).val

/-- What the server of `hierarchical-components` gets to print when the client passes `str`. -/
def HierarchicalComponents.printed (buf buf' : Vector UInt8 appendBufSize) (str : Str) :
    Option (List UInt8) := do
  let passed ← pipeline buf str
  let passed ← pipeline buf' (.ofPassed passed)
  some (Str.ofPassed passed).val

end Camkes.ReverseString
