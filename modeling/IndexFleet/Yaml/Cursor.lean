namespace IndexFleet.Yaml

def isAllowed (c : Char) : Bool :=
  let n := c.toNat
  n == 0x09 || n == 0x0A || n == 0x0D || (0x20 ≤ n && n ≤ 0x7E) || n == 0x85 ||
    (0xA0 ≤ n && n ≤ 0xD7FF) || (0xE000 ≤ n && n ≤ 0xFFFD) || 0x10000 ≤ n

def isBreak (c : Char) : Bool :=
  c == '\n' || c == '\r' || c == '\x85' || c == '\u2028' || c == '\u2029'

def isSpaceOrTab (c : Char) : Bool := c == ' ' || c == '\t'

def endsWord : Option Char → Bool
  | none => true
  | some c => isSpaceOrTab c || isBreak c

def isWordChar (c : Char) : Bool := c.isAlphanum || c == '_' || c == '-'

structure Cursor where
  rest : List Char
  index : Nat
  line : Nat
  column : Nat
  -- more than the number of characters of the document, so that no loop over them is longer
  bound : Nat
  deriving Repr, Inhabited

namespace Cursor

def start (text : String) : Cursor := ⟨text.toList, 0, 0, 0, text.length + 1⟩

def peek (c : Cursor) : Option Char := c.rest.head?

def peekAt (c : Cursor) (ahead : Nat) : Option Char := c.rest[ahead]?

def skip (c : Cursor) (count : Nat) : Cursor :=
  { c with rest := c.rest.drop count, index := c.index + count, column := c.column + count }

def skipWhile (c : Cursor) (p : Char → Bool) : Cursor :=
  c.skip (c.rest.takeWhile p).length

def atBreak (c : Cursor) : Bool := c.peek.any isBreak

-- Goes on behind a line break. A return with a feed is one break.
def skipBreak (c : Cursor) : Cursor :=
  match c.rest with
  | '\r' :: '\n' :: rest => { c with rest, index := c.index + 2, line := c.line + 1, column := 0 }
  | _ :: rest => { c with rest, index := c.index + 1, line := c.line + 1, column := 0 }
  | [] => c

-- The line break here as it counts in a scalar; nothing at the end of the document.
def breakHere (c : Cursor) : List Char :=
  match c.peek with
  | some '\u2028' => ['\u2028']
  | some '\u2029' => ['\u2029']
  | some b => if isBreak b then ['\n'] else []
  | none => []

def atMark (c : Cursor) (mark : Char) : Bool :=
  c.column == 0 && c.rest.take 3 == [mark, mark, mark] && endsWord (c.peekAt 3)

def atDocumentMark (c : Cursor) : Bool := c.atMark '-' || c.atMark '.'

def skipComment (c : Cursor) : Cursor :=
  if c.peek == some '#' then c.skipWhile (!isBreak ·) else c

def finishLine? (c : Cursor) : Option Cursor :=
  let c := (c.skipWhile isSpaceOrTab).skipComment
  match c.peek with
  | none => some c
  | some b => if isBreak b then some c.skipBreak else none

end Cursor

end IndexFleet.Yaml
