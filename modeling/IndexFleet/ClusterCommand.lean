import IndexFleet.Command
import IndexFleet.Database

namespace IndexFleet

inductive ClusterCommandKind
  | uniform (kind : CommandKind)
  | addDir
  -- the same after deleting every row of the source by its id
  | updateDir
  -- delete every row of sources by its id
  | batchDelete
  deriving Repr, DecidableEq, Inhabited

namespace ClusterCommandKind

def uniformKinds : List CommandKind :=
  [.addFile, .commit, .delete, .deleteAll, .optimize, .ping, .softCommit]

def ofName? : String → Option ClusterCommandKind
  | "addDir" => some addDir
  | "updateDir" => some updateDir
  | "batchDelete" => some batchDelete
  | name => ((CommandKind.ofName? name).filter uniformKinds.contains).map uniform

def name : ClusterCommandKind → String
  | uniform kind => kind.name
  | addDir => "addDir"
  | updateDir => "updateDir"
  | batchDelete => "batchDelete"

def needsArgument : ClusterCommandKind → Bool
  | uniform kind => kind.needsArgument
  | _ => true

end ClusterCommandKind

structure ClusterCommand where
  target : String
  kind : ClusterCommandKind
  argument : Option String
  database : Database
  settings : Settings
  deriving Repr, Inhabited

namespace ClusterCommand

def kindOfName (name : String) : Except Failure ClusterCommandKind :=
  match ClusterCommandKind.ofName? name with
  | some kind => .ok kind
  | none => .error (.unknownCommand name)

-- The command of a name. The target is looked at when the command runs.
def create (target name : String) (argument : Option String) (database : Database)
    (settings : Settings) : Except Failure ClusterCommand := do
  let kind ← kindOfName name
  let argument := givenArgument argument
  if kind.needsArgument && argument.isNone then
    .error (.argument s!"{name} requires an argument. Please specify --arg option and value.")
  else
    settings.check.mapError fun fault => .config fault.message
    .ok ⟨target, kind, argument, database, settings⟩

def title (command : ClusterCommand) : String := s!"{command.kind.name} on {command.target}"

end ClusterCommand

end IndexFleet
