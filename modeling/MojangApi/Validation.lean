import MojangApi.Types

/-! # Usernames and UUIDs of requests

Both checks look at the UTF-8 bytes. `parse_str` of the `uuid` crate reads more
spellings than the two that are let through to it.
-/

namespace MojangApi

def isAsciiDigit (byte : UInt8) : Bool := 0x30 ≤ byte && byte ≤ 0x39

def isAsciiAlphanumeric (byte : UInt8) : Bool :=
  isAsciiDigit byte || (0x41 ≤ byte && byte ≤ 0x5A) || (0x61 ≤ byte && byte ≤ 0x7A)

def isAsciiHexdigit (byte : UInt8) : Bool :=
  isAsciiDigit byte || (0x41 ≤ byte && byte ≤ 0x46) || (0x61 ≤ byte && byte ≤ 0x66)

def isValidMinecraftUsername (username : Str) : Bool :=
  !username.isEmpty && username.bytes.length ≤ 16 &&
    username.bytes.all fun byte => isAsciiAlphanumeric byte || byte = 0x5F || byte = 0x2D

def parseMinecraftUuid (parseStr : Str → Option Uuid) (value : Str) : Option Uuid :=
  let validShape := match value.bytes.length with
    | 32 => value.bytes.all isAsciiHexdigit
    | 36 => value.bytes.zipIdx.all fun (byte, index) =>
      if [8, 13, 18, 23].contains index then byte = 0x2D else isAsciiHexdigit byte
    | _ => false
  if validShape then parseStr value else none

/-- `uuid.simple()`: the 32 digits in lower case. -/
def Uuid.simple (uuid : Uuid) : Str :=
  (List.range 32).map fun i => Nat.digitChar (uuid.toNat / 16 ^ (31 - i) % 16)

end MojangApi
