import IndexFleet.Client

namespace IndexFleet

inductive CommandKind
  | addFile
  | addData
  | deleteAll
  | delete
  | commit
  | softCommit
  | optimize
  | ping
  -- take in a file that the server reads by itself
  | updateViaStreamFile
  deriving Repr, DecidableEq, Inhabited

namespace CommandKind

def all : List CommandKind :=
  [addFile, addData, deleteAll, delete, commit, softCommit, optimize, ping, updateViaStreamFile]

def name : CommandKind → String
  | addFile => "addFile"
  | addData => "addData"
  | deleteAll => "deleteAll"
  | delete => "delete"
  | commit => "commit"
  | softCommit => "softcommit"
  | optimize => "optimize"
  | ping => "ping"
  | updateViaStreamFile => "updateViaStreamFile"

def ofName? (name : String) : Option CommandKind := all.find? (·.name == name)

def needsArgument : CommandKind → Bool
  | addFile | addData | delete | updateViaStreamFile => true
  | _ => false

def readTimeout (kind : CommandKind) (timeouts : Timeouts) : Nat :=
  match kind with
  | commit | softCommit => timeouts.commitRead
  | optimize => timeouts.optimizeRead
  | updateViaStreamFile => timeouts.streamFileRead
  | _ => timeouts.read

end CommandKind

-- An argument that is empty counts as not given.
def givenArgument (argument : Option String) : Option String := argument.filter (!·.isEmpty)

structure Command where
  kind : CommandKind
  argument : Option String
  client : Client
  deriving Repr, DecidableEq, Inhabited

namespace Command

def kindOfName (name : String) : Except Failure CommandKind :=
  match CommandKind.ofName? name with
  | some kind => .ok kind
  | none => .error (.unknownCommand name)

def missingArgument (kind : CommandKind) : Failure :=
  .argument s!"command {kind.name} requires an argument"

def checkArgument (kind : CommandKind) (argument : Option String) :
    Except Failure (Option String) :=
  let argument := givenArgument argument
  if kind.needsArgument && argument.isNone then .error (missingArgument kind)
  else .ok argument

def create (timeouts : Timeouts) (host : String) (port : Port) (name : String)
    (argument : Option String) : Except Failure Command := do
  let kind ← kindOfName name
  let argument ← checkArgument kind argument
  .ok ⟨kind, argument, { Client.toServer host port timeouts with
    readTimeout := kind.readTimeout timeouts }⟩

def label (command : Command) : String := s!"{command.kind.name}@{command.client.address}"

def display (command : Command) : String :=
  s!"{command.kind.name} for {command.client.address}"

end Command

end IndexFleet
