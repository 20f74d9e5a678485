import Camkes.Data.Printf

/-!
# Printing addresses

`ip_to_string` and `mac_to_string` print an address into a buffer of `STRLEN_IP` or `STRLEN_MAC`
characters.  The text is the list of the characters before the NUL.
-/

namespace Camkes.Dhcp

open Printf (hexPad unsigned)

/-- `STRLEN_MAC` -/
def strlenMac : ℕ := 18

/-- `STRLEN_IP` -/
def strlenIp : ℕ := 16

/-- `"%02x:%02x:%02x:%02x:%02x:%02x"` -/
def macToString (input : UInt64) : List Char :=
  hexPad 2 (input &&& 0xff).toUInt32 ++ ':' ::
    (hexPad 2 ((input >>> 8) &&& 0xff).toUInt32 ++ ':' ::
    (hexPad 2 ((input >>> 16) &&& 0xff).toUInt32 ++ ':' ::
    (hexPad 2 ((input >>> 24) &&& 0xff).toUInt32 ++ ':' ::
    (hexPad 2 ((input >>> 32) &&& 0xff).toUInt32 ++ ':' ::
    hexPad 2 ((input >>> 40) &&& 0xff).toUInt32))))

/-- `"%u.%u.%u.%u"` -/
def ipToString (input : UInt32) : List Char :=
  unsigned (input >>> 24) ++ '.' ::
    (unsigned ((input >>> 16) &&& 0xff) ++ '.' ::
    (unsigned ((input >>> 8) &&& 0xff) ++ '.' :: unsigned (input &&& 0xff)))

end Camkes.Dhcp
