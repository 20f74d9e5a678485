import Camkes.Dhcp.Equiv.MakeMac
import Camkes.Dhcp.Strings

/-!
# Printed addresses

Both texts fit into their buffers.  An IP address can be told from its text (`ipToString_eq_iff`).
The MAC address that is made from a string is printed backwards: `make_mac` puts the first character
on top, and `mac_to_string` starts with the lowest byte (`exists_makeMac_macToString`).
-/

namespace Camkes.Dhcp

open Printf

variable {s : List UInt8} {char : PlainChar}

/-! ### IP addresses -/

theorem toNat_and_255 (x : UInt32) : (x &&& 0xff).toNat = x.toNat % 256 := by
  have hmask : (0xff : UInt32).toNat = 2 ^ 8 - 1 := rfl
  rw [UInt32.toNat_and, hmask, Nat.and_two_pow_sub_one_eq_mod]

theorem length_unsigned_and_255 (x : UInt32) : (unsigned (x &&& 0xff)).length ≤ 3 := by
  rw [length_unsigned_le_iff _ (by decide), toNat_and_255]
  omega

/-- The octets of an address. -/
theorem toNat_octet (x : UInt32) : (x >>> 24).toNat = x.toNat / 2 ^ 24 ∧
    (x >>> 16 &&& 0xff).toNat = x.toNat / 2 ^ 16 % 256 ∧
    (x >>> 8 &&& 0xff).toNat = x.toNat / 2 ^ 8 % 256 ∧ (x &&& 0xff).toNat = x.toNat % 256 := by
  simp only [toNat_and_255, UInt32.toNat_shiftRight, Nat.shiftRight_eq_div_pow]
  exact ⟨rfl, rfl, rfl, trivial⟩

/-- The text of an IP address fits with its NUL. -/
theorem length_ipToString (x : UInt32) : (ipToString x).length < strlenIp := by
  have htop : (unsigned (x >>> 24)).length ≤ 3 := by
    have hx := x.toNat_lt
    rw [length_unsigned_le_iff _ (by decide), (toNat_octet x).1]
    omega
  have h16 := length_unsigned_and_255 (x >>> 16)
  have h8 := length_unsigned_and_255 (x >>> 8)
  have h0 := length_unsigned_and_255 x
  simp only [ipToString, strlenIp, List.length_append, List.length_cons]
  omega

/-- **Round trip**: the text fits and tells the address. -/
theorem ipToString_eq_iff (x y : UInt32) :
    (ipToString x).length < strlenIp ∧ (ipToString x = ipToString y ↔ x = y) := by
  refine ⟨length_ipToString x, fun h => ?_, fun h => by rw [h]⟩
  have hdot : ∀ z, '.' ∉ unsigned z := notMem_unsigned rfl
  rw [ipToString, ipToString, append_sep_inj (hdot _) (hdot _), append_sep_inj (hdot _) (hdot _),
    append_sep_inj (hdot _) (hdot _)] at h
  simp only [unsigned_injective.eq_iff, ← UInt32.toNat_inj] at h
  obtain ⟨h24, h16, h8, h0⟩ := h
  obtain ⟨hx24, hx16, hx8, hx0⟩ := toNat_octet x
  obtain ⟨hy24, hy16, hy8, hy0⟩ := toNat_octet y
  rw [← UInt32.toNat_inj]
  omega

/-! ### MAC addresses -/

/-- The texts of bytes, with colons between them. -/
def hexBytes (l : List UInt8) : List Char :=
  [':'].intercalate (l.map fun c => hexPad 2 c.toUInt32)

theorem toUInt32_and_255 (x : UInt64) : (x &&& 0xff).toUInt32 = (UInt8.ofNat x.toNat).toUInt32 := by
  have hmask : (0xff : UInt64).toNat = 2 ^ 8 - 1 := rfl
  rw [← UInt32.toNat_inj, UInt64.toNat_toUInt32, UInt64.toNat_and, hmask,
    Nat.and_two_pow_sub_one_eq_mod, UInt8.toNat_toUInt32, UInt8.toNat_ofNat']
  omega

/-- Starts with the lowest byte. -/
theorem macToString_eq (x : UInt64) :
    macToString x = hexBytes (BigEndian.bytes 6 x.toNat).reverse := by
  have hbyte (k : UInt64) (hk : k.toNat < 64) :
      (x >>> k &&& 0xff).toUInt32 = (UInt8.ofNat (x.toNat / 2 ^ k.toNat)).toUInt32 := by
    rw [toUInt32_and_255, UInt64.toNat_shiftRight, Nat.mod_eq_of_lt hk, Nat.shiftRight_eq_div_pow]
  simp only [macToString, hbyte 8 (by decide), hbyte 16 (by decide), hbyte 24 (by decide),
    hbyte 32 (by decide), hbyte 40 (by decide), toUInt32_and_255]
  simp [hexBytes, BigEndian.bytes, List.intercalate, Nat.div_div_eq_div_mul]

theorem length_hexPad_byte (c : UInt8) : (hexPad 2 c.toUInt32).length = 2 := by
  apply length_hexPad (by decide)
  rw [UInt8.toNat_toUInt32]
  exact c.toNat_lt

theorem length_macToString (x : UInt64) : (macToString x).length + 1 = strlenMac := by
  simp only [macToString_eq, hexBytes, BigEndian.bytes, List.nil_append, List.cons_append,
    List.reverse_cons, List.reverse_nil, List.map_cons, List.map_nil, List.intercalate,
    List.intersperse, List.flatten_cons, List.flatten_nil, List.length_append,
    List.length_cons, List.length_nil, length_hexPad_byte]
  rfl

/-- **Printing what has been made**: where no `char` of a name is negative, its address is printed
as the bytes of the name, the last one first, and fills the buffer. -/
theorem exists_makeMac_macToString (hs : 0 ∉ s) (h : Plain char s) :
    ∃ x, makeMac char (s ++ [0]) = some x ∧ macToString x = hexBytes (macBytes s).reverse ∧
      (macToString x).length + 1 = strlenMac := by
  obtain ⟨-, hbytes⟩ := isMac_of_plain h
  refine ⟨_, makeMac_eq hs, ?_, length_macToString _⟩
  rw [macToString_eq]
  exact congrArg (fun l => hexBytes l.reverse) hbytes

theorem exists_makeMac_macToString_ab : ∃ x, makeMac .signed ([97, 98] ++ [0]) = some x ∧
    macToString x = "00:00:00:00:62:61".toList := by
  have hplain : Plain .signed [97, 98] := .inr (by simp [sizeofMac])
  obtain ⟨x, hmake, htext, -⟩ := exists_makeMac_macToString (by decide) hplain
  exact ⟨x, hmake, htext.trans (by decide)⟩

end Camkes.Dhcp
