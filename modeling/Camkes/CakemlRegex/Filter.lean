import Camkes.Data.CString

/-!
# The CakeML filter component

The Producer sends strings, and the filter passes on those that match a regular expression.  The
match is made on a CakeML string, which has a length; `ffiemit_string` hands the pointer to its
bytes to `server_transfer_string`, which takes it for a C string.

The language of the regular expression is a parameter, and so are the bytes that lie in memory
behind each string.
-/

namespace Camkes.CakemlRegex

/-- A string that the Producer sends. -/
structure Transfer where
  s : List UInt8
  -- it has come as a C string
  not_mem : 0 ∉ s
  -- what follows its bytes in the memory of the filter
  after : List UInt8

/-- `match_string`, which decides the language. -/
def matchString (language : List UInt8 → Bool) (s : List UInt8) : Bool := language s

/-- `ffiemit_string`, for a pointer to the bytes `c`: the string that `server_transfer_string`
passes to the Consumer.  The length of the CakeML string is not used. -/
def ffiemitString (c : List UInt8) (_clen : ℕ) : Option (List UInt8) := CString.read c

/-- `client_transfer_string`: what is delivered to the Consumer. -/
def clientTransferString (language : List UInt8 → Bool) (t : Transfer) :
    Option (List (List UInt8)) :=
  if matchString language t.s then do
    let delivered ← ffiemitString (t.s ++ t.after) t.s.length
    some [delivered]
  else some []

/-- The strings delivered for a sequence of transfers; `none` when the memory behind one of them
is read beyond its end. -/
def transferAll (language : List UInt8 → Bool) : List Transfer → Option (List (List UInt8))
  | [] => some []
  | t :: ts => do
    let delivered ← clientTransferString language t
    let rest ← transferAll language ts
    some (delivered ++ rest)

end Camkes.CakemlRegex
