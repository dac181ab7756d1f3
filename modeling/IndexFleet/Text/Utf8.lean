namespace IndexFleet.Text

abbrev Bytes := List UInt8

def utf8 (text : String) : Bytes :=
  text.toList.flatMap String.utf8EncodeChar

namespace Utf8

def within (low high byte : UInt8) : Bool := low ≤ byte && byte ≤ high

def isTail (byte : UInt8) : Bool := within 0x80 0xBF byte

-- The second bytes that may follow a lead byte of a sequence of three: no overlong form and no
-- surrogate starts with them.
def isSecondOfThree (lead byte : UInt8) : Bool :=
  if lead == 0xE0 then within 0xA0 0xBF byte
  else if lead == 0xED then within 0x80 0x9F byte
  else isTail byte

-- The same for sequences of four, which end at U+10FFFF.
def isSecondOfFour (lead byte : UInt8) : Bool :=
  if lead == 0xF0 then within 0x90 0xBF byte
  else if lead == 0xF4 then within 0x80 0x8F byte
  else isTail byte

def low6 (byte : UInt8) : Nat := byte.toNat % 64

-- The characters of a byte sequence, with `none` for each damaged piece. A damaged piece is the
-- longest start of a well-formed sequence that does not go on as it should, or a single byte that
-- starts none.
def pieces : Bytes → List (Option Char)
  | [] => []
  | a :: rest =>
      if a < 0x80 then some (Char.ofNat a.toNat) :: pieces rest
      else if within 0xC2 0xDF a then
        match rest with
        | [] => [none]
        | b :: rest₁ =>
            if isTail b then some (Char.ofNat (a.toNat % 32 * 64 + low6 b)) :: pieces rest₁
            else none :: pieces (b :: rest₁)
      else if within 0xE0 0xEF a then
        match rest with
        | [] => [none]
        | b :: rest₁ =>
            if isSecondOfThree a b then
              match rest₁ with
              | [] => [none]
              | c :: rest₂ =>
                  if isTail c then
                    some (Char.ofNat ((a.toNat % 16 * 64 + low6 b) * 64 + low6 c)) :: pieces rest₂
                  else none :: pieces (c :: rest₂)
            else none :: pieces (b :: rest₁)
      else if within 0xF0 0xF4 a then
        match rest with
        | [] => [none]
        | b :: rest₁ =>
            if isSecondOfFour a b then
              match rest₁ with
              | [] => [none]
              | c :: rest₂ =>
                  if isTail c then
                    match rest₂ with
                    | [] => [none]
                    | d :: rest₃ =>
                        if isTail d then
                          some (Char.ofNat (((a.toNat % 8 * 64 + low6 b) * 64 + low6 c) * 64 +
                            low6 d)) :: pieces rest₃
                        else none :: pieces (d :: rest₃)
                  else none :: pieces (c :: rest₂)
            else none :: pieces (b :: rest₁)
      else none :: pieces rest

def replacement : Char := '\uFFFD'

def decode (bytes : Bytes) : String :=
  String.ofList ((pieces bytes).map (·.getD replacement))

def damaged (bytes : Bytes) : Bool :=
  (pieces bytes).any Option.isNone

def decode? (bytes : Bytes) : Option String :=
  if damaged bytes then none else some (decode bytes)

end Utf8

end IndexFleet.Text
