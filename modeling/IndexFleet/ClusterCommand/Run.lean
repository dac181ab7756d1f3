import IndexFleet.ClusterCommand.Plan
import IndexFleet.Command.Run
import IndexFleet.Runner

namespace IndexFleet

inductive Phase
  | created
  | resolvingTargets
  | dispatching
  | draining
  | succeeded
  | failed
  deriving Repr, DecidableEq, Inhabited

def Phase.name : Phase → String
  | created => "CREATED"
  | resolvingTargets => "RESOLVING_TARGETS"
  | dispatching => "DISPATCHING"
  | draining => "DRAINING"
  | succeeded => "SUCCEEDED"
  | failed => "FAILED"

structure CommandRun where
  command : Command
  transcript : Dialogue.Transcript (Except Failure String)
  deriving Inhabited

namespace CommandRun

def of (tree : FileTree) (network : Network) (command : Command) : CommandRun :=
  ⟨command, (command.dialogue tree).run network⟩

def task (run : CommandRun) : Task :=
  ⟨run.command.label, match run.transcript.result with
    | .ok answer => .succeeded answer
    | .error failure => .failed failure⟩

end CommandRun

abbrev WaveRun := List CommandRun

namespace WaveRun

def received (wave : WaveRun) : List Request :=
  wave.flatMap fun run =>
    (run.transcript.calls.filter (·.2.wasReceived)).map (·.1)

end WaveRun

-- Runs the commands of a wave. They are all counted before the first one runs, and all of them run
-- to their end, whatever becomes of the others.
def Wave.run (wave : Wave) (tree : FileTree) (network : Network) :
    WaveRun × Except Failure Unit × Log :=
  let runs := wave.commands.map (CommandRun.of tree network)
  let runner := runs.foldl (fun runner run => runner.spawn run.task) Runner.start
  let (_, result, log) := runner.drain
  (runs, result, wave.notes ++ runs.flatMap (·.transcript.log) ++ log)

structure Run where
  phases : List Phase
  waves : List WaveRun
  log : Log
  result : Except Failure Unit
  deriving Inhabited

namespace Plan

-- Follows the steps of a plan up to the first wave with a failure.
def runSteps (tree : FileTree) (network : Network) (outcome : Except Failure Unit) :
    List PlanStep → Run
  | [] => ⟨[], [], [], outcome⟩
  | .note entry :: rest =>
      let run := runSteps tree network outcome rest
      { run with log := entry :: run.log }
  | .wave wave :: rest =>
      let (runs, result, log) := wave.run tree network
      match result with
      | .error failure => ⟨[.dispatching, .draining], [runs], log, .error failure⟩
      | .ok () =>
          let run := runSteps tree network outcome rest
          ⟨.dispatching :: .draining :: run.phases, runs :: run.waves, log ++ run.log, run.result⟩

def run (plan : Plan) (tree : FileTree) (network : Network) : Run :=
  runSteps tree network plan.outcome plan.steps

end Plan

namespace ClusterCommand

def run (command : ClusterCommand) (tree : FileTree) (network : Network) : Run :=
  let run := (command.plan tree).run tree network
  match run.result with
  | .ok () =>
      { run with
        phases := .resolvingTargets :: run.phases ++ [.succeeded]
        log := run.log ++ [.info s!"{command.title} succeeded"] }
  | .error failure =>
      { run with
        phases := .resolvingTargets :: run.phases ++ [.failed]
        log := run.log ++ [.error s!"{command.title} failed: {failure.message}"] }

end ClusterCommand

end IndexFleet
