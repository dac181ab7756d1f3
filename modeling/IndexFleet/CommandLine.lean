import IndexFleet.Decimal.Reading
import IndexFleet.Log
import IndexFleet.Node

namespace IndexFleet.CommandLine

inductive Action
  | cluster (conf command : String) (argument : Option String) (target : String)
  | single (host : String) (port : Port) (command : String) (argument : Option String)
  | propertiesOfName (conf name : String)
  | propertiesOfHost (conf host : String) (port : Option Port)
  | listing (conf : String)
  deriving Repr, DecidableEq, Inhabited

structure Invocation where
  settings : Option String
  level : Level
  maxLines : Option Nat
  threadFactor : Option Float
  action : Action
  deriving Repr, Inhabited

inductive Reading
  | invocation (invocation : Invocation)
  | help
  | misuse
  deriving Repr, Inhabited

def commonOptions : List String := ["settings", "log-level", "max-lines", "thread-factor"]

def optionsOf? : String → Option (List String)
  | "dist" => some ["conf", "command", "arg", "target"]
  | "exec" => some ["host", "port", "command", "arg"]
  | "properties" => some ["conf", "name", "host", "port"]
  | "nodes" => some ["conf"]
  | _ => none

-- A word that starts an option. A dash alone does not.
def isOption (word : String) : Bool :=
  match word.toList with
  | ['-'] => false
  | '-' :: _ => true
  | _ => false

def longOption? (word : String) : Option (String × Option String) :=
  match word.toList with
  | '-' :: '-' :: rest =>
      let name := rest.takeWhile (· != '=')
      match rest.dropWhile (· != '=') with
      | _ :: value => some (String.ofList name, some (String.ofList value))
      | [] => some (String.ofList name, none)
  | _ => none

def isHelp (word : String) : Bool := word == "--help" || word == "-h"

abbrev Values := List (String × String)

inductive Options
  | values (values : Values) (rest : List String)
  | help
  | misuse

-- Reads options of the given names. Each has a value, attached or in the next word, and is given
-- at most once.
def readOptions (names : List String) (values : Values) : List String → Options
  | [] => .values values []
  | word :: rest =>
      if isHelp word then .help
      else if word == "--" then
        if rest.isEmpty then .values values [] else .misuse
      else if isOption word then
        match longOption? word with
        | none => .misuse
        | some (name, attached) =>
            if !names.contains name || values.any (·.1 == name) then .misuse
            else match attached with
              | some value => readOptions names (values ++ [(name, value)]) rest
              | none =>
                  match rest with
                  | [] => .misuse
                  | value :: rest =>
                      if isOption value then .misuse
                      else readOptions names (values ++ [(name, value)]) rest
      else .values values (word :: rest)

def path? (values : Values) (name usual : String) : Option String :=
  match values.lookup name with
  | none => some usual
  | some path => if path.isEmpty then none else some path

-- A value that may be missing but not wrong.
def optional? {α : Type} (values : Values) (name : String) (read : String → Option α) :
    Option (Option α) :=
  match values.lookup name with
  | none => some none
  | some value => (read value).map some

def port? (text : String) : Option Port :=
  let unsigned := match text.toList with
    | '-' :: rest => (Decimal.natIn 10 rest).filter (· = 0)
    | _ => Decimal.nat? text
  (unsigned.filter (· < Nat.pow 2 16)).map UInt16.ofNat

def usualConf : String := "conf/index-nodes.yaml"

def action? (name : String) (values : Values) : Option Action := do
  match name with
  | "dist" =>
      some (.cluster (← path? values "conf" usualConf) (← values.lookup "command")
        (values.lookup "arg") ((values.lookup "target").getD "master"))
  | "exec" =>
      some (.single ((values.lookup "host").getD "localhost")
        (← (values.lookup "port").bind port?) (← values.lookup "command") (values.lookup "arg"))
  | "properties" =>
      let conf ← path? values "conf" usualConf
      let port ← optional? values "port" port?
      match values.lookup "name", values.lookup "host" with
      | some name, none => some (.propertiesOfName conf name)
      | none, some host => some (.propertiesOfHost conf host port)
      | _, _ => none
  | "nodes" => some (.listing (← path? values "conf" usualConf))
  | _ => none

-- An option behind the action's name hides the same option before it.
def invocation? (name : String) (values : Values) : Option Invocation := do
  let settings ← optional? values "settings" fun path => if path.isEmpty then none else some path
  let maxLines ← optional? values "max-lines" (Decimal.natBelow? (Nat.pow 2 64))
  let threadFactor ← optional? values "thread-factor" Decimal.float?
  let level := Level.ofName ((values.lookup "log-level").getD "info")
  some ⟨settings, level, maxLines, threadFactor, ← action? name values⟩

-- Whether each common option is written well wherever it stands.
def commonOptionsHold (values : Values) : Bool :=
  (optional? values "settings" fun path => if path.isEmpty then none else some path).isSome &&
    (optional? values "max-lines" (Decimal.natBelow? (Nat.pow 2 64))).isSome &&
    (optional? values "thread-factor" Decimal.float?).isSome

def usage : String :=
  "Runs update, commit and bulk-load commands across index servers.\n" ++
  "Actions:\n" ++
  "  dist        --command NAME [--arg TEXT] [--target NODES] [--conf FILE]\n" ++
  "  exec        --port PORT --command NAME [--arg TEXT] [--host HOST]\n" ++
  "  properties  --name NAME | --host HOST [--port PORT] [--conf FILE]\n" ++
  "  nodes       [--conf FILE]\n" ++
  "Options of all actions:\n" ++
  "  --settings FILE  --log-level LEVEL  --max-lines NUMBER  --thread-factor FACTOR\n"

-- Help is given about an action, about help, or about everything.
def isTopic : List String → Bool
  | [] => true
  | [word] => (optionsOf? word).isSome || word == "help"
  | _ => false

def read (words : List String) : Reading :=
  match readOptions commonOptions [] words with
  | .help => .help
  | .misuse | .values _ [] => .misuse
  | .values before ("help" :: topics) =>
      if commonOptionsHold before && isTopic topics then .help else .misuse
  | .values before (name :: rest) =>
      match optionsOf? name with
      | none => .misuse
      | some names =>
          match readOptions (names ++ commonOptions) [] rest with
          | .help => .help
          | .misuse | .values _ (_ :: _) => .misuse
          | .values behind [] =>
              if commonOptionsHold before then
                match invocation? name (behind ++ before) with
                | some invocation => .invocation invocation
                | none => .misuse
              else .misuse

end IndexFleet.CommandLine
