import Camkes.Data.CArray

/-!
# The dataport of the security demo

`Crypto` and `Transmitter` share a circular buffer of 256 characters.  Its indices are of type
`uint8_t` and wrap around by themselves.  Both components access it in critical sections under one
mutex, and a section is modelled as a function of the buffer that also lists the accesses it makes.
-/

namespace Camkes.SecurityDemo

/-- `dataport_buffer_t`. -/
structure DataportBuffer where
  data : Vector UInt8 256
  -- the next unused character
  head : UInt8
  -- the oldest character
  tail : UInt8

/-- The initial state: the buffer is empty. -/
def DataportBuffer.init : DataportBuffer where
  data := Vector.replicate 256 0
  head := 0
  tail := 0

/-- The index of `data` that a `uint8_t` denotes. -/
def slot (i : UInt8) : Fin 256 := ⟨i.toNat, i.toNat_lt⟩

/-- One entry of a trace. -/
inductive Obs
  -- `clear_text_handle_character` is called
  | submitted (c : UInt8)
  -- `data[i]` is assigned
  | wrote (i : UInt8)
  -- the character `c` is read from `data[i]` and removed
  | read (i c : UInt8)
  deriving DecidableEq

end Camkes.SecurityDemo
