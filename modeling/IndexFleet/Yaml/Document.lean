import IndexFleet.Yaml.Node

namespace IndexFleet.Yaml

namespace Node

mutual

def marks : Node → Nat
  | scalar .. => 1
  | sequence items _ => 2 + marksOfItems items
  | mapping pairs _ => 2 + marksOfPairs pairs
  | .recall _ => 1

def marksOfItems : List Node → Nat
  | [] => 0
  | item :: items => marks item + marksOfItems items

def marksOfPairs : List (Node × Node) → Nat
  | [] => 0
  | (key, value) :: pairs => marks key + marks value + marksOfPairs pairs

end

end Node

structure Document where
  -- nothing if the text holds no document at all, which is not the same as an empty scalar
  content : Option Node
  named : List (Nat × Node)
  deriving Repr, Inhabited

namespace Document

-- Reads the directives in front of a document. At most one gives the version, which is 1.1 or 1.2,
-- and no handle is given twice.
def directives? (versioned : Bool) (handles : Node.Handles) :
    List Token → Option (Bool × Node.Handles × List Token)
  | .version major minor :: rest =>
      if !versioned && major = 1 && (minor = 1 || minor = 2) then directives? true handles rest
      else none
  | .tagDirective handle extent :: rest =>
      if handles.any (·.1 == handle) then none
      else directives? versioned ((handle, extent) :: handles) rest
  | tokens => some (versioned || !handles.isEmpty, handles, tokens)

def ends (tokens : List Token) : Bool := tokens.all (· == .documentEnd)

def ofTokens? (handles : Node.Handles) (tokens : List Token) : Option Document := do
  let (node, anchors, rest) ←
    Node.read? (handles ++ Node.usualHandles) true false (3 * tokens.length + 4) .none tokens
  if ends rest then some ⟨some node, anchors.named⟩ else none

def ofText? (text : String) : Option Document := do
  let tokens ← Token.ofText? text
  let (directed, handles, rest) ← directives? false [] tokens
  match rest with
  | [] => if directed then none else some ⟨none, []⟩
  | .documentStart :: rest =>
      match rest with
      | [] | .documentEnd :: _ => if ends rest then some ⟨some .absent, []⟩ else none
      | _ => ofTokens? handles rest
  | _ => if directed then none else ofTokens? handles rest

-- How many aliases may be followed while the document is read, the same one counted each time.
-- This bounds what a short text can unfold to.
def maxRecalls (document : Document) : Nat :=
  100 * ((document.content.map Node.marks).getD 1)

end Document

-- A way to read a document: it knows what aliases stand for and how many may still be followed.
abbrev Reading (α : Type) := ReaderT (List (Nat × Node)) (StateT Nat Option) α

namespace Reading

variable {α : Type}

def ofOption : Option α → Reading α
  | some value => pure value
  | none => failure

def follow : Node → Reading Node
  | .recall number => do
      let left ← get
      guard (0 < left)
      set (left - 1)
      ofOption ((← read).lookup number)
  | node => pure node

end Reading

def Document.read {α : Type} (document : Document) (reading : Option Node → Reading α) : Option α :=
  ((reading document.content) document.named document.maxRecalls).map (·.1)

end IndexFleet.Yaml
