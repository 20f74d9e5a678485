import Camkes.SecurityDemo.Dataport

/-!
# The Crypto component of the security demo
-/

namespace Camkes.SecurityDemo

open CArray

/-- `UC_A`. -/
def ucA : UInt8 := 65

/-- `UC_Z`. -/
def ucZ : UInt8 := 90

/-- `LC_a`. -/
def lcA : UInt8 := 97

/-- `LC_z`. -/
def lcZ : UInt8 := 122

/-- `rot_13`.  Characters above 127 are no letters, whether `char` is signed or not. -/
def rot13 (src : UInt8) : UInt8 :=
  if (src ≥ lcA ∧ src ≤ lcZ) ∨ (src ≥ ucA ∧ src ≤ ucZ) then
    if src ≥ lcA + 13 ∨ (src ≥ ucA + 13 ∧ src ≤ ucZ) then src - 13
    else src + 13
  else src

/-- The critical section of `clear_text_handle_character`. -/
def clearTextHandleCharacter (buf : DataportBuffer) (c : UInt8) : DataportBuffer × List Obs :=
  let encryptedChar := rot13 c
  if buf.head + 1 = buf.tail then (buf, [])
  else
    ({ buf with data := put buf.data (slot buf.head) encryptedChar, head := buf.head + 1 },
      [.wrote buf.head])

end Camkes.SecurityDemo
