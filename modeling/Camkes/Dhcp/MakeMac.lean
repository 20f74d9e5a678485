import Mathlib.Algebra.Ring.Nat
import Mathlib.Tactic.Common
import Camkes.Data.BigEndian

/-!
# Making a MAC address

`make_mac` makes the address of a client from a C string.  The memory behind the pointer is the list
of the bytes that may be read, and reading beyond them fails (`none`).

Whether `char` is signed is up to the platform.
-/

namespace Camkes.Dhcp

/-- What `char` is: signed on x86, unsigned on ARM. -/
inductive PlainChar
  | signed
  | unsigned
  deriving DecidableEq

/-- `(uint64_t)(*data)`, which extends the sign of a signed `char`. -/
def PlainChar.toUInt64 : PlainChar → UInt8 → UInt64
  | signed, c => c.toInt8.toInt64.toUInt64
  | unsigned, c => c.toUInt64

/-- `SIZEOF_MAC`. -/
def sizeofMac : ℕ := 48 / 8

/-- The last `i` rounds of the loop of `make_mac`. -/
def makeMacLoop (char : PlainChar) : ℕ → UInt64 → List UInt8 → Option UInt64
  | 0, x, _ => some x
  | i + 1, x, data => do
    let c ← data.head?
    if c = 0 then makeMacLoop char i (x <<< 8) data
    else makeMacLoop char i (x <<< 8 ||| char.toUInt64 c) data.tail

def makeMac (char : PlainChar) (data : List UInt8) : Option UInt64 :=
  makeMacLoop char sizeofMac 0 data

/-! ### What the address should be -/

/-- The bytes of the address of a string. -/
def macBytes (s : List UInt8) : List UInt8 := (s.take sizeofMac).rightpad sizeofMac 0

/-- The address has these bytes, the first one on top, and nothing above them. -/
def IsMac (s : List UInt8) (x : UInt64) : Prop :=
  x.toNat < 2 ^ 48 ∧ BigEndian.bytes sizeofMac x.toNat = macBytes s

/-- Two strings, with their NULs, have the addresses they should have, and the same one exactly if
they begin with the same bytes. -/
def MakesMacs (char : PlainChar) (s s' : List UInt8) : Prop :=
  ∃ x x', makeMac char (s ++ [0]) = some x ∧ makeMac char (s' ++ [0]) = some x' ∧
    IsMac s x ∧ IsMac s' x' ∧ (x = x' ↔ s.take sizeofMac = s'.take sizeofMac)

end Camkes.Dhcp
