import IndexFleet.Text.Utf8

namespace IndexFleet.Text.Percent

-- The bytes that stand for themselves: ASCII letters and digits and four marks.
def isUnreserved (byte : UInt8) : Bool :=
  Utf8.within 0x30 0x39 byte || Utf8.within 0x41 0x5A byte || Utf8.within 0x61 0x7A byte ||
    byte == 0x2D || byte == 0x2E || byte == 0x5F || byte == 0x7E

def hexDigit (n : Nat) : Char :=
  if n < 10 then Char.ofNat (0x30 + n) else Char.ofNat (0x41 + (n - 10))

def encodeByte (byte : UInt8) : List Char :=
  if isUnreserved byte then [Char.ofNat byte.toNat]
  else ['%', hexDigit (byte.toNat / 16), hexDigit (byte.toNat % 16)]

def encodeBytes (bytes : Bytes) : List Char :=
  bytes.flatMap encodeByte

def encode (text : String) : String :=
  String.ofList (encodeBytes (utf8 text))

end IndexFleet.Text.Percent
