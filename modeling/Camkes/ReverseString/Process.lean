import Camkes.ReverseString.Basic
import Mathlib.Algebra.Ring.Int.Defs
import Mathlib.Algebra.Ring.Nat
import Mathlib.Data.List.FinRange

/-!
# The Reverse components

`i_process` reverses a copy of its argument and passes it on.  The components of
`hierarchical-components` and `multiassembly` are the same.  Its loop runs while `i < last_idx / 2`,
where the loop of the servers runs while `i < len / 2`.
-/

namespace Camkes.ReverseString

variable {ι ο α : Type}

/-- The characters of a string of C. -/
abbrev Str := { s : List UInt8 // 0 ∉ s }

/-- Run a program on a buffer with these contents.  It is `none` when the program has a fault. -/
def runOn (contents : List UInt8)
    (p : List (Fin contents.length) → Prog (Fin contents.length) UInt8 Unit α) : Option α :=
  ((p (List.finRange contents.length)).exec contents.get).map Prog.Outcome.value

/-- `int last_idx = strlen(str) - 1`, where the difference is a `size_t`. -/
def lastIdx (len : ℕ) : ℤ := (((len : ℤ) - 1) % 2 ^ 64).bmod (2 ^ 32)

/-- The number of rounds of `for (int i = 0; i < last_idx / 2; i++)`. -/
def rounds (len : ℕ) : ℕ := ((lastIdx len).tdiv 2).toNat

/-- `strlen`, the loop, and what `o_process` gets. -/
def reverseCopy (str : List ι) : Prog ι UInt8 ο (List UInt8) := do
  let s ← Prog.readString str
  Prog.swapLoop str (lastIdx s.length).toNat (rounds s.length)
  Prog.readString str

/-- What `i_process` passes to `o_process`; `strdup` makes a copy with the NUL. -/
def process (arg : Str) : Option (List UInt8) := runOn (arg.val ++ [0]) reverseCopy

/-- `i_process` of `hierarchical-components`. -/
def HierarchicalComponents.iProcess : Str → Option (List UInt8) := process

/-- `i_process` of `multiassembly`. -/
def Multiassembly.iProcess : Str → Option (List UInt8) := process

/-- The string in a buffer with these contents after the loop of a server. -/
def reversedIn (contents : List UInt8) : Option (List UInt8) :=
  runOn contents fun buf => do
    reverseInPlace buf
    Prog.readString buf

/-- The loop of the server of `reversestring`. -/
def Reversestring.reversedIn : List UInt8 → Option (List UInt8) := ReverseString.reversedIn

/-- The loop of the server of `rumprun_ethernet`. -/
def RumprunEthernet.reversedIn : List UInt8 → Option (List UInt8) := ReverseString.reversedIn

end Camkes.ReverseString
