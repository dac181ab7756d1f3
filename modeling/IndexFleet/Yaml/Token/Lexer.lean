import IndexFleet.Yaml.Token.Property
import IndexFleet.Yaml.Token.Scalar

namespace IndexFleet.Yaml

-- A place where a key without a question mark may have started. Only the colon behind it tells
-- whether it did. A required one stands where nothing but a key may stand.
structure Candidate where
  position : Nat
  required : Bool
  index : Nat
  line : Nat
  column : Nat
  deriving Repr, Inhabited

structure Lexer where
  cursor : Cursor
  tokens : Array Token
  -- the column of the innermost block collection, -1 outside of all
  indent : Int
  -- the columns of the collections around it
  outer : List Int
  keyAllowed : Bool
  candidate : Option Candidate
  -- the candidates of the flow collections that are open, innermost first
  flow : List (Option Candidate)
  deriving Inhabited

namespace Lexer

def start (text : String) : Lexer :=
  ⟨.start text, #[], -1, [], true, none, []⟩

def inFlow (s : Lexer) : Bool := !s.flow.isEmpty

def emit (s : Lexer) (token : Token) : Lexer :=
  { s with tokens := s.tokens.push token }

def emitMark (s : Lexer) (token : Token) (length : Nat) : Lexer :=
  { s.emit token with cursor := s.cursor.skip length }

def insertAt (s : Lexer) (position : Nat) (token : Token) : Lexer :=
  { s with tokens := s.tokens.insertIdxIfInBounds position token }

def innermost (s : Lexer) : Option Candidate :=
  match s.flow with
  | [] => s.candidate
  | c :: _ => c

def setInnermost (s : Lexer) (candidate : Option Candidate) : Lexer :=
  match s.flow with
  | [] => { s with candidate }
  | _ :: rest => { s with flow := candidate :: rest }

def dropCandidate? (s : Lexer) : Option Lexer :=
  if s.innermost.any (·.required) then none else some (s.setInnermost none)

def saveCandidate? (s : Lexer) : Option Lexer :=
  if s.keyAllowed then do
    let s ← s.dropCandidate?
    let c := s.cursor
    some (s.setInnermost (some
      ⟨s.tokens.size, !s.inFlow && s.indent == (c.column : Int), c.index, c.line, c.column⟩))
  else some s

-- A key fits on one line and has fewer than 1024 characters.
def isStale (s : Lexer) (candidate : Candidate) : Bool :=
  candidate.line < s.cursor.line || candidate.index + 1024 < s.cursor.index

def dropStale? (s : Lexer) : Option Lexer :=
  let stale (c : Option Candidate) : Bool := c.any s.isStale
  if stale s.candidate && s.candidate.any (·.required) then none
  else some { s with
    candidate := if stale s.candidate then none else s.candidate
    flow := s.flow.map fun c => if stale c then none else c }

-- Opens a block collection at a column if it is deeper than the innermost one.
def roll (s : Lexer) (column : Nat) (position : Nat) (token : Token) : Lexer :=
  if !s.inFlow && s.indent < (column : Int) then
    { s.insertAt position token with indent := column, outer := s.indent :: s.outer }
  else s

def closing (column indent : Int) : List Int → Nat × Int × List Int
  | [] => (0, indent, [])
  | next :: rest =>
      if column < indent then
        let (count, indent, outer) := closing column next rest
        (count + 1, indent, outer)
      else (0, indent, next :: rest)

def unroll (s : Lexer) (column : Int) : Lexer :=
  if s.inFlow then s
  else
    let (count, indent, outer) := closing column s.indent s.outer
    { s with indent, outer, tokens := s.tokens ++ Array.replicate count Token.blockEnd }

-- Skips blanks, comments and line breaks. A tab may not stand where a block key may.
def skipBlanks : Nat → Lexer → Lexer
  | 0, s => s
  | fuel + 1, s =>
      let c := s.cursor
      let c := if c.column == 0 && c.peek == some '\uFEFF' then c.skip 1 else c
      let tabs := s.inFlow || !s.keyAllowed
      let c := (c.skipWhile fun a => a == ' ' || (tabs && a == '\t')).skipComment
      if c.atBreak then
        skipBlanks fuel { s with cursor := c.skipBreak, keyAllowed := s.keyAllowed || !s.inFlow }
      else { s with cursor := c }

def streamEnd? (s : Lexer) : Option Lexer :=
  (s.unroll (-1)).dropCandidate?

def directive? (s : Lexer) : Option Lexer := do
  let s ← (s.unroll (-1)).dropCandidate?
  let (token, cursor) ← Yaml.directive? s.cursor
  some { s.emit token with cursor, keyAllowed := false }

def documentMark? (s : Lexer) (token : Token) : Option Lexer := do
  let s ← (s.unroll (-1)).dropCandidate?
  some { s.emitMark token 3 with keyAllowed := false }

def openFlow? (s : Lexer) (token : Token) : Option Lexer := do
  let s ← s.saveCandidate?
  some { s.emitMark token 1 with flow := none :: s.flow, keyAllowed := true }

def closeFlow? (s : Lexer) (token : Token) : Option Lexer := do
  let s ← s.dropCandidate?
  some { s.emitMark token 1 with flow := s.flow.drop 1, keyAllowed := false }

def flowEntry? (s : Lexer) : Option Lexer := do
  let s ← s.dropCandidate?
  some { s.emitMark .flowEntry 1 with keyAllowed := true }

-- A mark that, in block context, may only stand where a key may and opens a collection there.
def blockMark? (s : Lexer) (opening : Token) : Option Lexer := do
  guard (s.inFlow || s.keyAllowed)
  some (s.roll s.cursor.column s.tokens.size opening)

def blockEntry? (s : Lexer) : Option Lexer := do
  let s ← (← s.blockMark? .blockSequenceStart).dropCandidate?
  some { s.emitMark .blockEntry 1 with keyAllowed := true }

def key? (s : Lexer) : Option Lexer := do
  let s ← (← s.blockMark? .blockMappingStart).dropCandidate?
  some { s.emitMark .key 1 with keyAllowed := !s.inFlow }

-- A colon makes the innermost candidate a key, if there is one.
def value? (s : Lexer) : Option Lexer :=
  match s.innermost with
  | some candidate =>
      let s := (s.insertAt candidate.position .key).roll candidate.column candidate.position
        .blockMappingStart
      some { (s.setInnermost none).emitMark .value 1 with keyAllowed := false }
  | none => do
      let s ← s.blockMark? .blockMappingStart
      some { s.emitMark .value 1 with keyAllowed := !s.inFlow }

def property? (s : Lexer) (read : Cursor → Option (Token × Cursor)) : Option Lexer := do
  let s ← s.saveCandidate?
  let (token, cursor) ← read s.cursor
  some { s.emit token with cursor, keyAllowed := false }

def blockScalar? (s : Lexer) (folded : Bool) : Option Lexer := do
  let s ← s.dropCandidate?
  let (text, cursor) ← block? folded s.indent (s.cursor.skip 1)
  let style := if folded then Style.folded else .literal
  some { s.emit (.scalar text style) with cursor, keyAllowed := true }

def quotedScalar? (s : Lexer) (quote : Char) : Option Lexer := do
  let s ← s.saveCandidate?
  let (text, cursor) ← quoted? quote s.cursor.bound "" (s.cursor.skip 1)
  some { s.emit (.scalar text .quoted) with cursor, keyAllowed := false }

def plainScalar? (s : Lexer) : Option Lexer := do
  let s ← s.saveCandidate?
  let (text, broken, cursor) ←
    plain? s.inFlow (s.indent + 1) s.cursor.bound "" .empty s.cursor
  some { s.emit (.scalar text .plain) with cursor, keyAllowed := broken }

def startsPlain (s : Lexer) (a : Char) (next : Option Char) : Bool :=
  !(endsWord (some a) || "-?:,[]\x7b\x7d#&*!|>'\"%@`".toList.contains a) ||
    (a == '-' && !next.any isSpaceOrTab) ||
    (!s.inFlow && (a == '?' || a == ':') && !endsWord next)

def token? (s : Lexer) (a : Char) : Option Lexer :=
  let c := s.cursor
  let next := c.peekAt 1
  if c.column == 0 && a == '%' then s.directive?
  else if c.atMark '-' then s.documentMark? .documentStart
  else if c.atMark '.' then s.documentMark? .documentEnd
  else match a with
    | '[' => s.openFlow? .flowSequenceStart
    | '{' => s.openFlow? .flowMappingStart
    | ']' => s.closeFlow? .flowSequenceEnd
    | '}' => s.closeFlow? .flowMappingEnd
    | ',' => s.flowEntry?
    | '*' => s.property? fun c => do
        let (name, c) ← anchorName? (c.skip 1)
        some (.recall name, c)
    | '&' => s.property? fun c => do
        let (name, c) ← anchorName? (c.skip 1)
        some (.anchor name, c)
    | '!' => s.property? (tag? s.inFlow)
    | '\'' => s.quotedScalar? '\''
    | '"' => s.quotedScalar? '"'
    | _ =>
        if a == '-' && endsWord next then s.blockEntry?
        else if a == '?' && (s.inFlow || endsWord next) then s.key?
        else if a == ':' && (s.inFlow || endsWord next) then s.value?
        else if a == '|' && !s.inFlow then s.blockScalar? false
        else if a == '>' && !s.inFlow then s.blockScalar? true
        else if s.startsPlain a next then s.plainScalar?
        else none

def run? : Nat → Lexer → Option (Array Token)
  | 0, _ => none
  | fuel + 1, s => do
      let s ← (skipBlanks s.cursor.bound s).dropStale?
      let s := s.unroll s.cursor.column
      match s.cursor.peek with
      | none => (← s.streamEnd?).tokens
      | some a => run? fuel (← s.token? a)

end Lexer

def Token.ofText? (text : String) : Option (List Token) := do
  guard (text.toList.all isAllowed)
  let tokens ← (Lexer.start text).run? (text.length + 2)
  some tokens.toList

end IndexFleet.Yaml
