import IndexFleet.Yaml.Token.Lexer

namespace IndexFleet.Yaml

inductive Node
  | scalar (text : String) (style : Style) (tag : Option String)
  | sequence (items : List Node) (tag : Option String)
  | mapping (pairs : List (Node × Node)) (tag : Option String)
  | recall (number : Nat)
  deriving Repr, Inhabited

namespace Node

-- The scalar that is not written at all.
def absent : Node := .scalar "" .plain none

-- The anchors met so far. A number is what ties an alias to an anchor.
structure Anchors where
  names : List (String × Nat)
  -- the places of the anchors with their numbers, latest first
  places : List (Nat × Nat)
  -- the nodes that are complete, by the place of their anchor
  finished : List (Nat × Node)

namespace Anchors

def none : Anchors := ⟨[], [], []⟩

-- Meets an anchor, which is answered by its place. Its number is the number of different names
-- before it. Where names are given again, two anchors may get the same number.
def begin? (anchors : Anchors) (name : Option String) : Option Nat × Anchors :=
  match name with
  | .none => (.none, anchors)
  | some name =>
      let number := anchors.names.length
      let place := anchors.places.length
      (some place, { anchors with
        names := (name, number) :: anchors.names.filter (·.1 != name)
        places := (number, place) :: anchors.places })

def finish (anchors : Anchors) (place : Option Nat) (node : Node) : Anchors :=
  match place with
  | .none => anchors
  | some place => { anchors with finished := (place, node) :: anchors.finished }

def find? (anchors : Anchors) (name : String) : Option Node :=
  (anchors.names.lookup name).map .recall

-- What the numbers stand for in the end. The first entry of a number is the valid one.
def named (anchors : Anchors) : List (Nat × Node) :=
  anchors.places.filterMap fun (number, place) =>
    (anchors.finished.lookup place).map (number, ·)

end Anchors

abbrev Handles := List (String × String)

def usualHandles : Handles := [("!", "!"), ("!!", "tag:yaml.org,2002:")]

def tagName? (handles : Handles) (handle suffix : String) : Option String :=
  if handle.isEmpty then some suffix else (handles.lookup handle).map (· ++ suffix)

-- The anchor and the tag in front of a node, in either order, each at most once.
def properties? (handles : Handles) :
    List Token → Option (Option String × Option String × List Token)
  | .anchor name :: .tag handle suffix :: rest => do
      some (some name, some (← tagName? handles handle suffix), rest)
  | .tag handle suffix :: .anchor name :: rest => do
      some (some name, some (← tagName? handles handle suffix), rest)
  | .anchor name :: rest => some (some name, none, rest)
  | .tag handle suffix :: rest => do some (none, some (← tagName? handles handle suffix), rest)
  | tokens => some (none, none, tokens)

def startsNothing : Option Token → Bool
  | some .blockEntry | some .key | some .value | some .blockEnd => true
  | _ => false

mutual

-- Reads a node. Outside of flow collections it may be a block collection, and behind a key also a
-- sequence that is not indented.
def read? (handles : Handles) (block unindented : Bool) :
    Nat → Anchors → List Token → Option (Node × Anchors × List Token)
  | 0, _, _ => none
  | _ + 1, anchors, .recall name :: rest => do some (← anchors.find? name, anchors, rest)
  | fuel + 1, anchors, tokens => do
      let (anchor, tag, tokens) ← properties? handles tokens
      let (place, anchors) := anchors.begin? anchor
      let (node, anchors, tokens) ← match tokens with
        | .blockEntry :: _ =>
            if unindented then do
              let (items, anchors, tokens) ← unindented? handles fuel anchors tokens
              some (Node.sequence items tag, anchors, tokens)
            else if anchor.isSome || tag.isSome then
              some (.scalar "" .plain tag, anchors, tokens)
            else none
        | .scalar text style :: rest =>
            some (.scalar text style (tag.filter (· != "!")), anchors, rest)
        | .flowSequenceStart :: rest => do
            let (items, anchors, tokens) ← flowItems? handles true fuel anchors rest
            some (.sequence items tag, anchors, tokens)
        | .flowMappingStart :: rest => do
            let (pairs, anchors, tokens) ← flowPairs? handles true fuel anchors rest
            some (.mapping pairs tag, anchors, tokens)
        | .blockSequenceStart :: rest =>
            if block then do
              let (items, anchors, tokens) ← blockItems? handles fuel anchors rest
              some (.sequence items tag, anchors, tokens)
            else if anchor.isSome || tag.isSome then some (.scalar "" .plain tag, anchors, tokens)
            else none
        | .blockMappingStart :: rest =>
            if block then do
              let (pairs, anchors, tokens) ← blockPairs? handles fuel anchors rest
              some (.mapping pairs tag, anchors, tokens)
            else if anchor.isSome || tag.isSome then some (.scalar "" .plain tag, anchors, tokens)
            else none
        | _ =>
            if anchor.isSome || tag.isSome then some (.scalar "" .plain tag, anchors, tokens)
            else none
      some (node, anchors.finish place node, tokens)

def blockItems? (handles : Handles) :
    Nat → Anchors → List Token → Option (List Node × Anchors × List Token)
  | 0, _, _ => none
  | fuel + 1, anchors, tokens =>
      match tokens with
      | .blockEnd :: rest => some ([], anchors, rest)
      | .blockEntry :: rest => do
          let (item, anchors, tokens) ←
            match rest.head? with
            | some .blockEntry | some .blockEnd => some (absent, anchors, rest)
            | _ => read? handles true false fuel anchors rest
          let (items, anchors, tokens) ← blockItems? handles fuel anchors tokens
          some (item :: items, anchors, tokens)
      | _ => none

-- Reads the items of a sequence that is not indented. Anything else than an item ends it.
def unindented? (handles : Handles) :
    Nat → Anchors → List Token → Option (List Node × Anchors × List Token)
  | 0, _, _ => none
  | fuel + 1, anchors, tokens =>
      match tokens with
      | .blockEntry :: rest => do
          let (item, anchors, tokens) ←
            if startsNothing rest.head? then some (absent, anchors, rest)
            else read? handles true false fuel anchors rest
          let (items, anchors, tokens) ← unindented? handles fuel anchors tokens
          some (item :: items, anchors, tokens)
      | _ => some ([], anchors, tokens)

def blockPart? (handles : Handles) :
    Nat → Anchors → List Token → Option (Node × Anchors × List Token)
  | 0, _, _ => none
  | fuel + 1, anchors, tokens =>
      match tokens.head? with
      | some .key | some .value | some .blockEnd => some (absent, anchors, tokens)
      | _ => read? handles true true fuel anchors tokens

def blockPairs? (handles : Handles) :
    Nat → Anchors → List Token → Option (List (Node × Node) × Anchors × List Token)
  | 0, _, _ => none
  | fuel + 1, anchors, tokens =>
      match tokens with
      | .blockEnd :: rest => some ([], anchors, rest)
      | .key :: rest => do
          let (key, anchors, tokens) ← blockPart? handles fuel anchors rest
          let (value, anchors, tokens) ←
            match tokens with
            | .value :: rest => blockPart? handles fuel anchors rest
            | _ => some (absent, anchors, tokens)
          let (pairs, anchors, tokens) ← blockPairs? handles fuel anchors tokens
          some ((key, value) :: pairs, anchors, tokens)
      | _ => none

-- Reads the items of a flow sequence and its end. An item may be a single pair.
def flowItems? (handles : Handles) (first : Bool) :
    Nat → Anchors → List Token → Option (List Node × Anchors × List Token)
  | 0, _, _ => none
  | fuel + 1, anchors, tokens =>
      match tokens with
      | .flowSequenceEnd :: rest => some ([], anchors, rest)
      | _ => do
          let tokens ←
            if first then some tokens
            else match tokens with
              | .flowEntry :: rest => some rest
              | _ => none
          match tokens with
          | .flowSequenceEnd :: rest => some ([], anchors, rest)
          | .key :: rest => do
              let (key, anchors, tokens) ←
                match rest with
                | .value :: rest | .flowEntry :: rest | .flowSequenceEnd :: rest =>
                    some (absent, anchors, rest)
                | _ => read? handles false false fuel anchors rest
              let (value, anchors, tokens) ←
                match tokens with
                | .value :: rest =>
                    match rest.head? with
                    | some .flowEntry | some .flowSequenceEnd => some (absent, anchors, rest)
                    | _ => read? handles false false fuel anchors rest
                | _ => some (absent, anchors, tokens)
              let (items, anchors, tokens) ← flowItems? handles false fuel anchors tokens
              some (.mapping [(key, value)] none :: items, anchors, tokens)
          | _ => do
              let (item, anchors, tokens) ← read? handles false false fuel anchors tokens
              let (items, anchors, tokens) ← flowItems? handles false fuel anchors tokens
              some (item :: items, anchors, tokens)

def flowPairs? (handles : Handles) (first : Bool) :
    Nat → Anchors → List Token → Option (List (Node × Node) × Anchors × List Token)
  | 0, _, _ => none
  | fuel + 1, anchors, tokens =>
      match tokens with
      | .flowMappingEnd :: rest => some ([], anchors, rest)
      | _ => do
          let tokens ←
            if first then some tokens
            else match tokens with
              | .flowEntry :: rest => some rest
              | _ => none
          match tokens with
          | .flowMappingEnd :: rest => some ([], anchors, rest)
          | .key :: rest => do
              let (key, anchors, tokens) ←
                match rest.head? with
                | some .value | some .flowEntry | some .flowMappingEnd =>
                    some (absent, anchors, rest)
                | _ => read? handles false false fuel anchors rest
              let (value, anchors, tokens) ←
                match tokens with
                | .value :: rest =>
                    match rest.head? with
                    | some .flowEntry | some .flowMappingEnd => some (absent, anchors, rest)
                    | _ => read? handles false false fuel anchors rest
                | _ => some (absent, anchors, tokens)
              let (pairs, anchors, tokens) ← flowPairs? handles false fuel anchors tokens
              some ((key, value) :: pairs, anchors, tokens)
          | _ => do
              let (key, anchors, tokens) ← read? handles false false fuel anchors tokens
              let (pairs, anchors, tokens) ← flowPairs? handles false fuel anchors tokens
              some ((key, absent) :: pairs, anchors, tokens)

end

end Node

end IndexFleet.Yaml
