import IndexFleet.Yaml.Document
import IndexFleet.Yaml.Plain

namespace IndexFleet.Yaml

inductive Content
  | null
  | bool (value : Bool)
  | natural (value : Nat)
  -- a number behind a minus sign, be it zero
  | negated (value : Nat)
  | float (value : Float)
  | text (value : String)
  | sequence (items : List Content)
  | mapping (pairs : List (Content × Content))
  deriving Inhabited

namespace Content

-- The meaning of an integer of up to 128 bits. It has none unless 64 bits are enough.
def ofInteger? (text : String) : Option (Option Content) :=
  match (Plain.nat? text).filter (· < Nat.pow 2 128) with
  | some value => some (if value < Nat.pow 2 64 then some (.natural value) else none)
  | none =>
      ((Plain.negated? text).filter (· ≤ Nat.pow 2 127)).map fun value =>
        if value ≤ Nat.pow 2 63 then some (.negated value) else none

def ofPlain? (text : String) : Option Content :=
  if text.isEmpty || Plain.isNull text then some .null
  else match Plain.bool? text with
    | some value => some (.bool value)
    | none =>
        match ofInteger? text with
        | some meaning => meaning
        | none =>
            let digits := match text.toList with
              | '-' :: rest | '+' :: rest => rest
              | rest => rest
            if Plain.isZeroPadded digits then some (.text text)
            else match Plain.float? text with
              | some value => some (.float value)
              | none => some (.text text)

-- The meaning of a scalar. A tag of the core types decides how the text is read, a local tag has
-- no meaning here, and any other tag makes it a text.
def ofScalar? (text : String) (style : Style) : Option String → Option Content
  | none => if style = .plain then ofPlain? text else some (.text text)
  | some "tag:yaml.org,2002:bool" => (Plain.bool? text).map .bool
  | some "tag:yaml.org,2002:int" => (ofInteger? text).join
  | some "tag:yaml.org,2002:float" => (Plain.float? text).map .float
  | some "tag:yaml.org,2002:null" => if Plain.isNull text then some .null else none
  | some tag => if tag.startsWith "!" then none else some (.text text)

def isLocal (tag : Option String) : Bool := tag.any (·.startsWith "!")

def ofLeaf? : Node → Option Content
  | .scalar written style tag => ofScalar? written style tag
  | _ => none

def ofNode : Nat → Node → Reading Content
  | 0, node => do Reading.ofOption (ofLeaf? (← Reading.follow node))
  | depth + 1, node => do
      match ← Reading.follow node with
      | .sequence items tag => do
          guard (!isLocal tag)
          return .sequence (← items.mapM (ofNode depth))
      | .mapping pairs tag => do
          guard (!isLocal tag)
          return .mapping (← pairs.mapM fun (key, value) => do
            return (← ofNode depth key, ← ofNode depth value))
      | leaf => Reading.ofOption (ofLeaf? leaf)

def text? : Content → Option String
  | text value => some value
  | _ => none

def optionalText? : Content → Option (Option String)
  | null => some none
  | text value => some (some value)
  | _ => none

end Content

namespace Node

-- A node that is not written counts as an empty collection where a collection is expected.
def isEmptyPlain : Node → Bool
  | scalar text .plain _ => text.isEmpty
  | _ => false

def namedPairs (node : Node) : Reading (List (String × Node)) := do
  let node ← Reading.follow node
  if node.isEmptyPlain then return []
  else match node with
    | mapping pairs _ => pairs.mapM fun (key, value) => do
        match ← Reading.follow key with
        | scalar text _ _ => return (text, value)
        | _ => failure
    | _ => failure

def rootPairs (root : Option Node) : Reading (List (String × Node)) :=
  match root with
  | none => pure []
  | some node => node.namedPairs

def items (node : Node) : Reading (List Node) := do
  let node ← Reading.follow node
  if node.isEmptyPlain then return []
  else match node with
    | sequence items _ => return items
    | _ => failure

-- Numbers are written plain, or as a literal block under the tag of their type.
def numberText? (type : String) : Node → Option String
  | scalar text .plain _ => some text
  | scalar text .literal (some tag) =>
      if tag == "tag:yaml.org,2002:" ++ type then some text else none
  | _ => none

def word (node : Node) : Reading Nat := do
  let node ← Reading.follow node
  Reading.ofOption (((node.numberText? "int").bind Plain.nat?).filter (· < Nat.pow 2 64))

def float (node : Node) : Reading Float := do
  let node ← Reading.follow node
  Reading.ofOption ((node.numberText? "float").bind Plain.float?)

def field {α : Type} (pairs : List (String × Node)) (name : String) (usual : α)
    (read : Node → Reading α) : Reading α :=
  match pairs.filter (·.1 == name) with
  | [] => pure usual
  | [(_, value)] => read value
  | _ => failure

end Node

end IndexFleet.Yaml
