import IndexFleet.Settings.Document
import IndexFleet.Topology

namespace IndexFleet.Topology

open Yaml (Content Reading)

-- The field that a key means, by name or by number in the order of the fields. Keys that mean no
-- field are passed over, and keys of other kinds are refused.
def fieldOf? (fields : List String) : Content → Option (Option String)
  | .text name => some (if fields.contains name then some name else none)
  | .natural number => some fields[number]?
  | _ => none

def givenFields? (fields : List String) :
    List (Content × Content) → Option (List (String × Content))
  | [] => some []
  | (key, value) :: rest => do
      let given ← givenFields? fields rest
      match ← fieldOf? fields key with
      | none => some given
      | some field => if given.any (·.1 == field) then none else some ((field, value) :: given)

def requiredText? (given : List (String × Content)) (field : String) : Option String :=
  (given.lookup field).bind Content.text?

def optionalText? (given : List (String × Content)) (field : String) : Option (Option String) :=
  match given.lookup field with
  | none => some none
  | some value => value.optionalText?

def port? : Content → Option Port
  | .natural number => if number < Nat.pow 2 16 then some (UInt16.ofNat number) else none
  | .negated 0 => some 0
  | _ => none

def reference? (pairs : List (Content × Content)) : Option TopologyEntry := do
  let given ← givenFields? ["ref", "group"] pairs
  some (.reference (← requiredText? given "ref") (← optionalText? given "group"))

def node? (pairs : List (Content × Content)) : Option TopologyEntry := do
  let given ← givenFields? ["host", "port", "alias", "replicate", "group"] pairs
  some (.node (← requiredText? given "host") (← (given.lookup "port").bind port?)
    (← optionalText? given "alias") (← optionalText? given "replicate")
    (← optionalText? given "group"))

-- An entry is a reference if it can be read as one.
def entryOf? (content : Content) : Option TopologyEntry :=
  match content with
  | .mapping pairs => (reference? pairs).orElse fun _ => node? pairs
  | _ => none

-- The number of collections that an entry may hold inside each other, itself included.
def entryDepth : Nat := 126

def sectionOf (node : Yaml.Node) : Reading (List TopologyEntry) := do
  (← node.items).mapM fun item => do
    Reading.ofOption (entryOf? (← Content.ofNode entryDepth item))

def ofRoot (root : Option Yaml.Node) : Reading Topology := do
  let pairs ← Yaml.Node.rootPairs root
  return {
    master := ← Yaml.Node.field pairs "master" [] sectionOf
    merger := ← Yaml.Node.field pairs "merger" [] sectionOf
    backup := ← Yaml.Node.field pairs "backup" [] sectionOf
    slave := ← Yaml.Node.field pairs "slave" [] sectionOf }

def ofText? (text : String) : Option Topology :=
  (Yaml.Document.ofText? text).bind (·.read ofRoot)

inductive LoadFault
  | document (fault : DocumentFault)
  | invalid (fault : Fault)

def LoadFault.failure : LoadFault → Failure
  | document fault => .config fault.message
  | invalid fault => .config fault.message

def databaseOfText (text : String) : Except LoadFault (Database × Log) :=
  match ofText? text with
  | none => .error (.document .malformed)
  | some topology => topology.build.mapError .invalid

def load (tree : FileTree) (path : String) : Except LoadFault (Database × Log) := do
  databaseOfText (← (documentText tree path).mapError .document)

end IndexFleet.Topology
