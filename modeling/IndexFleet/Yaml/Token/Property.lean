import IndexFleet.Decimal.Reading
import IndexFleet.Text.Utf8
import IndexFleet.Yaml.Cursor
import IndexFleet.Yaml.Token

namespace IndexFleet.Yaml

def anchorName? (c : Cursor) : Option (String × Cursor) :=
  let name := c.rest.takeWhile isWordChar
  let c := c.skip name.length
  if !name.isEmpty && (endsWord c.peek || c.peek.any ("?:,]\x7d%@`".toList.contains ·)) then
    some (String.ofList name, c)
  else none

-- The characters of a tag. Only a tag in angle brackets may hold the marks of flow collections.
def isTagChar (verbatim : Bool) (c : Char) : Bool :=
  isWordChar c || ";/?:@&=+$.!~*'()%".toList.contains c ||
    (verbatim && ",[]".toList.contains c)

def sequenceLength? (lead : Nat) : Option Nat :=
  if lead < 0x80 then some 1
  else if lead / 32 = 6 then some 2
  else if lead / 16 = 14 then some 3
  else if lead / 8 = 30 then some 4
  else none

def escapedByte? (text : List Char) : Option Nat :=
  match text with
  | '%' :: high :: low :: _ => Decimal.natIn 16 [high, low]
  | _ => none

def escapedBytes? (text : List Char) : Option (List Nat) := do
  let lead ← escapedByte? text
  let count ← sequenceLength? lead
  let tail ← (List.range (count - 1)).mapM fun i => do
    let byte ← escapedByte? (text.drop (3 * (i + 1)))
    guard (byte / 64 = 2)
    some byte
  some (lead :: tail)

def tagText? (verbatim : Bool) : Nat → Cursor → Option (List Char × Cursor)
  | 0, c => some ([], c)
  | fuel + 1, c =>
      match c.peek with
      | none => some ([], c)
      | some a =>
          if a == '%' then do
            let bytes ← escapedBytes? c.rest
            let (rest, c) ← tagText? verbatim fuel (c.skip (3 * bytes.length))
            some ((Text.Utf8.decode (bytes.map UInt8.ofNat)).toList ++ rest, c)
          else if isTagChar verbatim a then do
            let (rest, c) ← tagText? verbatim fuel (c.skip 1)
            some (a :: rest, c)
          else some ([], c)

def tagHandle? (c : Cursor) : Option (List Char × Cursor) := do
  guard (c.peek == some '!')
  let name := (c.rest.drop 1).takeWhile isWordChar
  let after := c.skip (1 + name.length)
  if after.peek == some '!' then some ('!' :: name ++ ['!'], after.skip 1)
  else some ('!' :: name, after)

def tag? (flow : Bool) (c : Cursor) : Option (Token × Cursor) := do
  let (token, c) ←
    if c.peekAt 1 == some '<' then do
      let (text, c) ← tagText? true c.bound (c.skip 2)
      guard (!text.isEmpty && c.peek == some '>')
      some (Token.tag "" (String.ofList text), c.skip 1)
    else do
      let (handle, c) ← tagHandle? c
      let (text, c) ← tagText? false c.bound c
      if 1 < handle.length && handle.getLast? == some '!' then do
        guard (!text.isEmpty)
        some (Token.tag (String.ofList handle) (String.ofList text), c)
      else
        let suffix := handle.drop 1 ++ text
        if suffix.isEmpty then some (Token.tag "" "!", c)
        else some (Token.tag "!" (String.ofList suffix), c)
  guard (endsWord c.peek || (flow && c.peek == some ','))
  some (token, c)

-- A part of a version, of nine digits at most.
def versionNumber? (c : Cursor) : Option (Nat × Cursor) := do
  let digits := c.rest.takeWhile Char.isDigit
  guard (digits.length ≤ 9)
  let n ← Decimal.natIn 10 digits
  some (n, c.skip digits.length)

def version? (c : Cursor) : Option (Token × Cursor) := do
  let (major, c) ← versionNumber? (c.skipWhile isSpaceOrTab)
  guard (c.peek == some '.')
  let (minor, c) ← versionNumber? (c.skip 1)
  some (.version major minor, c)

def tagDirective? (c : Cursor) : Option (Token × Cursor) := do
  let (handle, c) ← tagHandle? (c.skipWhile isSpaceOrTab)
  guard (handle.getLast? == some '!')
  guard (c.peek.any isSpaceOrTab)
  let c := c.skipWhile isSpaceOrTab
  let (extent, c) ← tagText? true c.bound c
  guard (!extent.isEmpty && endsWord c.peek)
  some (.tagDirective (String.ofList handle) (String.ofList extent), c)

def directive? (c : Cursor) : Option (Token × Cursor) := do
  let name := (c.rest.drop 1).takeWhile isWordChar
  let c := c.skip (1 + name.length)
  guard (endsWord c.peek)
  let (token, c) ←
    if name == "YAML".toList then version? c
    else if name == "TAG".toList then tagDirective? c
    else none
  some (token, ← c.finishLine?)

end IndexFleet.Yaml
