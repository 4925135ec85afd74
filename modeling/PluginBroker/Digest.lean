/-! A digest of thirty-two bytes, and its text: two upper-case hexadecimal digits for each byte, the
high half of the byte first.  The text has sixty-four characters, all of them digits. -/

namespace PluginBroker

/-- The result of hashing a message: exactly thirty-two bytes. -/
structure Digest where
  bytes : Vector UInt8 32
deriving DecidableEq

namespace Digest

/-- The sixteen hexadecimal digits, letters in upper case. -/
def hexDigits : Vector Char 16 :=
  #v['0', '1', '2', '3', '4', '5', '6', '7', '8', '9', 'A', 'B', 'C', 'D', 'E', 'F']

/-- The two digits of a byte, the more significant one first. -/
def hexPair (b : UInt8) : List Char :=
  have := b.toNat_lt
  [hexDigits[b.toNat / 16], hexDigits[b.toNat % 16]]

def hexChars (d : Digest) : List Char := d.bytes.toList.flatMap hexPair

/-- The digest written out as sixty-four hexadecimal digits. -/
def hex (d : Digest) : String := String.ofList d.hexChars

@[simp] theorem length_hexChars (d : Digest) : d.hexChars.length = 64 := by
  simp [hexChars, hexPair, List.length_flatMap, List.map_const']

end Digest

end PluginBroker
