import IndexFleet.ClusterCommand.Run
import IndexFleet.CommandLine
import IndexFleet.Instance
import IndexFleet.Topology.Document

namespace IndexFleet.CommandLine

structure Outcome where
  exitCode : UInt8
  output : String
  error : Option String
  -- what was told before, as far as the operator wants to see it
  log : Log
  calls : List (Request × Reply)
  deriving Inhabited

def linesText (lines : List String) : String := String.join (lines.map (· ++ "\n"))

def succeed (output : String) (log : Log) (calls : List (Request × Reply)) : Outcome :=
  ⟨0, output, none, log, calls⟩

def failWith (reason : String) (log : Log) (calls : List (Request × Reply)) : Outcome :=
  ⟨1, "", some reason, log, calls⟩

-- The settings of an invocation: those of a file or the usual ones, with what the command line
-- gives in their place.
def settingsOf (tree : FileTree) (invocation : Invocation) : Except String Settings := do
  let settings ← match invocation.settings with
    | none => .ok {}
    | some path => (Settings.load tree path).mapError fun fault =>
        s!"loading settings from {path}: {fault.failure.chain}"
  let settings := { settings with
    maxLinesPerChunk := invocation.maxLines.getD settings.maxLinesPerChunk
    threadFactor := invocation.threadFactor.getD settings.threadFactor }
  settings.check.mapError fun fault => (Failure.config fault.message).chain
  .ok settings

def databaseOf (tree : FileTree) (conf : String) : Except String (Database × Log) := do
  let (database, log) ← (Topology.load tree conf).mapError fun fault =>
    s!"loading topology from {conf}: {fault.failure.chain}"
  .ok (database, log ++ [.info s!"{database.nodes.length} nodes loaded from {conf}"])

def withDatabase (tree : FileTree) (conf : String) (next : Database → Log → Outcome) : Outcome :=
  match databaseOf tree conf with
  | .error reason => failWith reason [] []
  | .ok (database, log) => next database log

def runSingle (tree : FileTree) (network : Network) (settings : Settings) (host : String)
    (port : Port) (name : String) (argument : Option String) : Outcome :=
  match Command.create settings.timeouts host port name argument with
  | .error failure => failWith failure.chain [] []
  | .ok command =>
      let transcript := (command.dialogue tree).run network
      match transcript.result with
      | .ok answer => succeed (linesText [answer]) transcript.log transcript.calls
      | .error failure => failWith failure.chain transcript.log transcript.calls

def runCluster (tree : FileTree) (network : Network) (settings : Settings) (target name : String)
    (argument : Option String) (database : Database) (log : Log) : Outcome :=
  match ClusterCommand.create target name argument database settings with
  | .error failure => failWith failure.chain log []
  | .ok command =>
      let run := command.run tree network
      let calls := run.waves.flatten.flatMap (·.transcript.calls)
      match run.result with
      | .ok () => succeed "" (log ++ run.log) calls
      | .error failure => failWith failure.chain (log ++ run.log) calls

def showProperties (database : Database) (log : Log)
    (selected : Except Database.SelectionFault Node) : Outcome :=
  match selected with
  | .ok node => succeed (linesText (database.properties node)) log []
  | .error fault => failWith fault.failure.chain log []

def Invocation.run (invocation : Invocation) (tree : FileTree) (network : Network) : Outcome :=
  match settingsOf tree invocation with
  | .error reason => failWith reason [] []
  | .ok settings =>
      match invocation.action with
      | .cluster conf name argument target => withDatabase tree conf fun database log =>
          runCluster tree network settings target name argument database log
      | .single host port name argument =>
          runSingle tree network settings host port name argument
      | .propertiesOfName conf name => withDatabase tree conf fun database log =>
          showProperties database log (database.selectByName name)
      | .propertiesOfHost conf host port => withDatabase tree conf fun database log =>
          let (selected, told) := database.selectByHost host port
          showProperties database (log ++ told) selected
      | .listing conf => withDatabase tree conf fun database log =>
          succeed (linesText database.listing) log []

-- Does what a command line asks for. One that is not understood ends with a code of its own.
def run (words : List String) (tree : FileTree) (network : Network) : Outcome :=
  match read words with
  | .invocation invocation =>
      let outcome := invocation.run tree network
      { outcome with log := outcome.log.atLeast invocation.level }
  | .help => ⟨0, usage, none, [], []⟩
  | .misuse => ⟨2, "", none, [], []⟩

end IndexFleet.CommandLine
