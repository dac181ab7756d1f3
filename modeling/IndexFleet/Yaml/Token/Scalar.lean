import IndexFleet.Decimal.Reading
import IndexFleet.Yaml.Cursor
import IndexFleet.Yaml.Token

namespace IndexFleet.Yaml

structure Gap where
  spaces : List Char
  firstBreak : List Char
  moreBreaks : List Char
  broken : Bool

namespace Gap

def empty : Gap := ⟨[], [], [], false⟩

def escaped : Gap := ⟨[], [], [], true⟩

-- What a gap contributes to the scalar. A single line break counts as a space.
def text (gap : Gap) : List Char :=
  if gap.broken then
    if gap.firstBreak == ['\n'] then
      if gap.moreBreaks.isEmpty then [' '] else gap.moreBreaks
    else gap.firstBreak ++ gap.moreBreaks
  else gap.spaces

-- Reads a gap. After a line break no tab may stand before the given column.
def read? (indent : Int) : Nat → Gap → Cursor → Option (Gap × Cursor)
  | 0, gap, c => some (gap, c)
  | fuel + 1, gap, c =>
      match c.peek with
      | none => some (gap, c)
      | some b =>
          if isSpaceOrTab b then
            if gap.broken && b == '\t' && (c.column : Int) < indent then none
            else
              read? indent fuel
                (if gap.broken then gap else { gap with spaces := gap.spaces ++ [b] }) (c.skip 1)
          else if isBreak b then
            read? indent fuel
              (if gap.broken then { gap with moreBreaks := gap.moreBreaks ++ c.breakHere }
                else ⟨[], c.breakHere, [], true⟩) c.skipBreak
          else some (gap, c)

end Gap

-- The length of the word of a plain scalar at the front of a text. Inside a flow collection the
-- collection's own marks end a word, and a colon right before one of them is refused.
def plainWord? (flow : Bool) : List Char → Option Nat
  | [] => some 0
  | c :: rest =>
      if endsWord (some c) then some 0
      else if flow && c == ':' && rest.head?.any (",?[]\x7b\x7d".toList.contains ·) then none
      else if (c == ':' && endsWord rest.head?) || (flow && ",[]\x7b\x7d".toList.contains c) then some 0
      else (plainWord? flow rest).map (· + 1)

-- Reads a plain scalar whose continuation lines are indented at least as given. Also answers
-- whether it ended behind a line break.
def plain? (flow : Bool) (indent : Int) :
    Nat → String → Gap → Cursor → Option (String × Bool × Cursor)
  | 0, text, gap, c => some (text, gap.broken, c)
  | fuel + 1, text, gap, c =>
      if c.atDocumentMark || c.peek == some '#' then some (text, gap.broken, c)
      else do
        let count ← plainWord? flow c.rest
        let text := if count = 0 then text else text ++ String.ofList (gap.text ++ c.rest.take count)
        let gap := if count = 0 then gap else .empty
        let c := c.skip count
        if c.rest.isEmpty || !endsWord c.peek then
          some (text, gap.broken, c)
        else do
          let (gap, c) ← Gap.read? indent c.bound gap c
          if !flow && (c.column : Int) < indent then some (text, gap.broken, c)
          else plain? flow indent fuel text gap c

def shortEscape? : Char → Option Char
  | '0' => some '\x00'
  | 'a' => some '\x07'
  | 'b' => some '\x08'
  | 't' | '\t' => some '\t'
  | 'n' => some '\n'
  | 'v' => some '\x0b'
  | 'f' => some '\x0c'
  | 'r' => some '\r'
  | 'e' => some '\x1b'
  | ' ' => some ' '
  | '"' => some '"'
  | '/' => some '/'
  | '\\' => some '\\'
  | 'N' => some '\x85'
  | '_' => some '\xa0'
  | 'L' => some '\u2028'
  | 'P' => some '\u2029'
  | _ => none

def escapeDigits? : Char → Option Nat
  | 'x' => some 2
  | 'u' => some 4
  | 'U' => some 8
  | _ => none

def escape? (text : List Char) : Option (Char × Nat) := do
  let letter ← text.head?
  match shortEscape? letter with
  | some c => some (c, 1)
  | none => do
      let count ← escapeDigits? letter
      let digits := (text.drop 1).take count
      guard (digits.length = count)
      let code ← Decimal.natIn 16 digits
      guard (code.isValidChar)
      some (Char.ofNat code, count + 1)

-- Reads the part of a quoted scalar up to the next blank, line break or closing quote, or up to
-- an escaped line break, which is reported.
def quotedWord? (quote : Char) : Nat → Cursor → Option (List Char × Bool × Cursor)
  | 0, c => some ([], false, c)
  | fuel + 1, c =>
      match c.rest with
      | [] => some ([], false, c)
      | a :: rest =>
          if endsWord (some a) then some ([], false, c)
          else if a == quote then
            if quote == '\'' && rest.head? == some '\'' then do
              let (word, broken, c) ← quotedWord? quote fuel (c.skip 2)
              some ('\'' :: word, broken, c)
            else some ([], false, c)
          else if quote == '"' && a == '\\' then
            if rest.head?.any isBreak then some ([], true, (c.skip 1).skipBreak)
            else do
              let (b, count) ← escape? rest
              let (word, broken, c) ← quotedWord? quote fuel (c.skip (count + 1))
              some (b :: word, broken, c)
          else do
            let (word, broken, c) ← quotedWord? quote fuel (c.skip 1)
            some (a :: word, broken, c)

def quoted? (quote : Char) : Nat → String → Cursor → Option (String × Cursor)
  | 0, _, _ => none
  | fuel + 1, text, c =>
      if c.atDocumentMark || c.rest.isEmpty then none
      else do
        let (word, broken, c) ← quotedWord? quote c.bound c
        let text := text ++ String.ofList word
        if c.peek == some quote then some (text, c.skip 1)
        else do
          let gap := if broken then Gap.escaped else .empty
          let (gap, c) ← Gap.read? 0 c.bound gap c
          quoted? quote fuel (text ++ String.ofList gap.text) c

inductive Chomping
  | strip
  | clip
  | keep
  deriving DecidableEq

-- Reads the empty lines in front of a line of a block scalar. An indentation of zero is not known
-- yet: then the widest indentation seen is answered too.
def blockBreaks? (indent : Nat) :
    Nat → Nat → List Char → Cursor → Option (List Char × Nat × Cursor)
  | 0, widest, breaks, c => some (breaks, widest, c)
  | fuel + 1, widest, breaks, c =>
      let spaces := (c.rest.takeWhile (· == ' ')).length
      let c := c.skip (if indent = 0 then spaces else min (indent - c.column) spaces)
      let widest := max widest c.column
      if (indent = 0 || c.column < indent) && c.peek == some '\t' then none
      else if c.atBreak then
        blockBreaks? indent fuel widest (breaks ++ c.breakHere) c.skipBreak
      else some (breaks, widest, c)

structure Block where
  text : String
  lastBreak : List Char
  -- whether the last line started with a blank
  lastBlank : Bool
  breaks : List Char

-- Reads the lines of a block scalar. In a folded one, a single break between two lines that do not
-- start with a blank becomes a space.
def blockLines? (folded : Bool) (indent : Nat) : Nat → Block → Cursor → Option (Block × Cursor)
  | 0, block, c => some (block, c)
  | fuel + 1, block, c =>
      if c.column = indent && !c.rest.isEmpty then do
        let blank := c.peek.any isSpaceOrTab
        let glue :=
          if folded && block.lastBreak == ['\n'] && !block.lastBlank && !blank then
            if block.breaks.isEmpty then [' '] else []
          else block.lastBreak
        let line := c.rest.takeWhile (!isBreak ·)
        let c := c.skip line.length
        let lastBreak := c.breakHere
        let (breaks, _, c) ← blockBreaks? indent c.bound 0 [] c.skipBreak
        blockLines? folded indent fuel
          ⟨block.text ++ String.ofList (glue ++ block.breaks ++ line), lastBreak, blank, breaks⟩ c
      else some (block, c)

def chomping? : Char → Option Chomping
  | '+' => some .keep
  | '-' => some .strip
  | _ => none

def indentation? (c : Char) : Option Nat :=
  if '1' ≤ c ∧ c ≤ '9' then some (c.toNat - '0'.toNat) else none

-- The header of a block scalar: chomping, indentation (zero if not given) and its length.
def blockHeader (text : List Char) : Chomping × Nat × Nat :=
  match text.head?.bind chomping?, text.head?.bind indentation? with
  | some chomping, _ =>
      match text[1]?.bind indentation? with
      | some n => (chomping, n, 2)
      | none => (chomping, 0, 1)
  | none, some n =>
      match text[1]?.bind chomping? with
      | some chomping => (chomping, n, 2)
      | none => (.clip, n, 1)
  | none, none => (.clip, 0, 0)

def block? (folded : Bool) (parent : Int) (c : Cursor) : Option (String × Cursor) := do
  let (chomping, increment, count) := blockHeader c.rest
  let c ← (c.skip count).finishLine?
  let given := if increment = 0 then 0 else (max parent 0).toNat + increment
  let (breaks, widest, c) ← blockBreaks? given c.bound 0 [] c
  let indent := if given = 0 then max (max widest (parent + 1).toNat) 1 else given
  let (block, c) ← blockLines? folded indent c.bound ⟨"", [], false, breaks⟩ c
  let ending := match chomping with
    | .strip => []
    | .clip => block.lastBreak
    | .keep => block.lastBreak ++ block.breaks
  some (block.text ++ String.ofList ending, c)

end IndexFleet.Yaml
