import Camkes.Machine.Buffer

/-!
# Reversing strings: constants and the loop of the servers

The servers of `reversestring` and `rumprun_ethernet` reverse a string in a buffer that they share
with a client, with the same loop.
-/

namespace Camkes.ReverseString

variable {ι ο : Type}

/-- `REVERSE_STRING_BUFSIZE`. -/
def bufSize : ℕ := 4096

/-- `REVERSE_STRING_END_IDX`. -/
def endIdx : ℕ := bufSize - 1

/-- `REVERSE_STRING_MAX_LEN`. -/
def maxLen : ℕ := endIdx - 1

/-- `strnlen` and the loop of a server, in which `swap_idx` is `len - i - 1`. -/
def reverseInPlace (buf : List ι) : Prog ι UInt8 ο Unit := do
  let len ← Prog.strnlen (buf.take maxLen)
  Prog.swapLoop buf (len - 1) (len / 2)

/-- `snprintf(buf, n, …)`, where `s` is the formatted string. -/
def snprintf (buf : List ι) (n : ℕ) (s : List UInt8) : Prog ι UInt8 ο Unit :=
  if n = 0 then .done () else Prog.storeAll buf (s.take (n - 1) ++ [0])

/-- `printf` of the string in the buffer. -/
def printString (buf : List ι) : Prog ι UInt8 (List UInt8) Unit := do
  let s ← Prog.readString buf
  .output s (.done ())

/-- What the servers do between their waiting for the client and their signal to it. -/
def serve (buf : List ι) : Prog ι UInt8 (List UInt8) Unit := do
  printString buf
  reverseInPlace buf

/-- The two sides of a shared buffer. -/
inductive Party
  | client
  | server
  deriving DecidableEq

/-- The programs of the two. -/
def both {β α : Type} (c s : Prog ι β ο α) : Party → Prog ι β ο α
  | .client => c
  | .server => s

end Camkes.ReverseString
