import IndexFleet.ClusterCommand.Run
import IndexFleet.Proofs.Runner
import IndexFleet.Proofs.World
import Mathlib.Logic.Relation

namespace IndexFleet

def TaskEnd.ofResult : Except Failure String → TaskEnd
  | .ok answer => .succeeded answer
  | .error failure => .failed failure

def Task.result (task : Task) : Except Failure String :=
  match task.ending with
  | .succeeded answer => .ok answer
  | .failed failure => .error failure
  | .panicked => .error (.taskPanicked task.label)

inductive Stage
  -- it counts and does not exist yet
  | counted
  | working (rest : Dialogue (Except Failure String))
  -- a call of it is on its way
  | asking (request : Request) (next : Reply → Dialogue (Except Failure String))
  -- its work is over
  | ceased (ending : TaskEnd)
  -- its failure, if any, is recorded, and it still counts
  | recorded (ending : TaskEnd)
  | finished (ending : TaskEnd)

structure Job where
  command : Command
  calls : List (Request × Reply)
  log : Log
  stage : Stage

namespace Job

def ofCommand (command : Command) : Job := ⟨command, [], [], .counted⟩

def isUnfinished (job : Job) : Bool :=
  match job.stage with
  | .finished _ => false
  | _ => true

-- The call that is on its way.
def underWay? (job : Job) : Option Request :=
  match job.stage with
  | .asking request _ => some request
  | _ => none

def ending? (job : Job) : Option TaskEnd :=
  match job.stage with
  | .ceased ending | .recorded ending | .finished ending => some ending
  | _ => none

def taskEnding (job : Job) (ending : TaskEnd) : Task := ⟨job.command.label, ending⟩

def failure? (job : Job) : Option Failure :=
  match job.stage with
  | .recorded ending | .finished ending => (job.taskEnding ending).failure?
  | _ => none

-- The command with what became of it. A job that never ends is as good as panicked.
def run (job : Job) : CommandRun :=
  ⟨job.command, ⟨job.calls, job.log, (job.taskEnding (job.ending?.getD .panicked)).result⟩⟩

-- One step of a job: what it does to the group of its wave and to itself, and what it tells. A
-- panic is possible whenever the job is at work, not while it waits for an answer.
inductive Step (tree : FileTree) (world : World) :
    SyncGroup → Job → SyncGroup → Job → Log → Prop
  | start {group : SyncGroup} {command : Command} {calls : List (Request × Reply)} {log : Log} :
      Step tree world group ⟨command, calls, log, .counted⟩
        group ⟨command, calls, log, .working (command.dialogue tree)⟩ []
  | say {group : SyncGroup} {command : Command} {calls : List (Request × Reply)} {log : Log}
      {entry : Entry} {next : Dialogue (Except Failure String)} :
      Step tree world group ⟨command, calls, log, .working (.say entry next)⟩
        group ⟨command, calls, log ++ [entry], .working next⟩ [entry]
  | ask {group : SyncGroup} {command : Command} {calls : List (Request × Reply)} {log : Log}
      {request : Request} {next : Reply → Dialogue (Except Failure String)} :
      Step tree world group ⟨command, calls, log, .working (.ask request next)⟩
        group ⟨command, calls, log, .asking request next⟩ []
  | hear {group : SyncGroup} {command : Command} {calls : List (Request × Reply)} {log : Log}
      {request : Request} {next : Reply → Dialogue (Except Failure String)} {reply : Reply}
      (hreply : world.mayReply request reply) :
      Step tree world group ⟨command, calls, log, .asking request next⟩
        group ⟨command, calls ++ [(request, reply)], log, .working (next reply)⟩ []
  | cease {group : SyncGroup} {command : Command} {calls : List (Request × Reply)} {log : Log}
      {result : Except Failure String} :
      Step tree world group ⟨command, calls, log, .working (.done result)⟩
        group ⟨command, calls, log, .ceased (.ofResult result)⟩ []
  | panic {group : SyncGroup} {command : Command} {calls : List (Request × Reply)} {log : Log}
      {rest : Dialogue (Except Failure String)} (hpanic : world.mayPanic) :
      Step tree world group ⟨command, calls, log, .working rest⟩
        group ⟨command, calls, log, .ceased .panicked⟩ []
  | record {group : SyncGroup} {command : Command} {calls : List (Request × Reply)} {log : Log}
      {ending : TaskEnd} :
      Step tree world group ⟨command, calls, log, .ceased ending⟩
        (Task.recordIn ⟨command.label, ending⟩ group) ⟨command, calls, log, .recorded ending⟩
        (Task.notes ⟨command.label, ending⟩)
  | leave {group : SyncGroup} {command : Command} {calls : List (Request × Reply)} {log : Log}
      {ending : TaskEnd} :
      Step tree world group ⟨command, calls, log, .recorded ending⟩
        group.decrement.1 ⟨command, calls, log, .finished ending⟩ group.decrement.2

end Job

structure Crew where
  group : SyncGroup
  jobs : List Job

namespace Crew

def empty : Crew := ⟨.empty, []⟩

-- A task counts before it exists.
def spawn (crew : Crew) (command : Command) : Crew :=
  ⟨crew.group.increment, crew.jobs ++ [.ofCommand command]⟩

def unfinished (crew : Crew) : List Job := crew.jobs.filter (·.isUnfinished)

def commands (crew : Crew) : List Command := crew.jobs.map (·.command)

def runs (crew : Crew) : WaveRun := crew.jobs.map (·.run)

-- Any job of a crew takes a step.
inductive Step (tree : FileTree) (world : World) : Crew → Crew → Log → Prop
  | job {group after : SyncGroup} (before : List Job) {behind : List Job} {job next : Job}
      {told : Log} (hjob : job.Step tree world group after next told) :
      Step tree world ⟨group, before ++ job :: behind⟩ ⟨after, before ++ next :: behind⟩ told

end Crew

-- Where the dispatcher is. The steps are those of its plan that it has not begun.
inductive Control
  | between (steps : List PlanStep)
  -- it starts the tasks of a wave, one for each command
  | starting (commands : List Command) (steps : List PlanStep)
  | draining (steps : List PlanStep)
  | returned (result : Except Failure Unit)

def Control.inWave : Control → Bool
  | starting .. | draining _ => true
  | between _ | returned _ => false

-- The dispatcher together with all tasks. The crew of the latest wave comes first.
structure ExecutionState where
  control : Control
  crews : List Crew
  phases : List Phase
  log : Log

namespace ExecutionState

def unfinished (state : ExecutionState) : List Job := state.crews.flatMap (·.unfinished)

def run? (state : ExecutionState) : Option Run :=
  match state.control with
  | .returned result => some ⟨state.phases, state.crews.reverse.map (·.runs), state.log, result⟩
  | _ => none

end ExecutionState

namespace ClusterCommand

def close (command : ClusterCommand) (result : Except Failure Unit) (crews : List Crew)
    (phases : List Phase) (log : Log) : ExecutionState :=
  match result with
  | .ok () => ⟨.returned result, crews, phases ++ [.succeeded],
      log ++ [.info s!"{command.title} succeeded"]⟩
  | .error failure => ⟨.returned result, crews, phases ++ [.failed],
      log ++ [.error s!"{command.title} failed: {failure.message}"]⟩

-- One step of an execution. The dispatcher follows its plan and waits at the end of each wave until
-- nobody counts; in between, the tasks of all waves take their steps in any order.
inductive Step (command : ClusterCommand) (tree : FileTree) (world : World) :
    ExecutionState → ExecutionState → Prop
  | tell {entry : Entry} {steps : List PlanStep} {crews : List Crew} {phases : List Phase}
      {log : Log} :
      Step command tree world ⟨.between (.note entry :: steps), crews, phases, log⟩
        ⟨.between steps, crews, phases, log ++ [entry]⟩
  | enter {wave : Wave} {steps : List PlanStep} {crews : List Crew} {phases : List Phase}
      {log : Log} :
      Step command tree world ⟨.between (.wave wave :: steps), crews, phases, log⟩
        ⟨.starting wave.commands steps, .empty :: crews, phases ++ [.dispatching],
          log ++ wave.notes⟩
  | spawn {fresh : Command} {commands : List Command} {steps : List PlanStep} {crew : Crew}
      {earlier : List Crew} {phases : List Phase} {log : Log} :
      Step command tree world ⟨.starting (fresh :: commands) steps, crew :: earlier, phases, log⟩
        ⟨.starting commands steps, crew.spawn fresh :: earlier, phases, log⟩
  | await {steps : List PlanStep} {crews : List Crew} {phases : List Phase} {log : Log} :
      Step command tree world ⟨.starting [] steps, crews, phases, log⟩
        ⟨.draining steps, crews, phases ++ [.draining], log⟩
  | goOn {steps : List PlanStep} {crew : Crew} {group : SyncGroup} {earlier : List Crew}
      {phases : List Phase} {log : Log} (hdrained : crew.group.isDrained = true)
      (hresult : crew.group.result = (group, .ok ())) :
      Step command tree world ⟨.draining steps, crew :: earlier, phases, log⟩
        ⟨.between steps, { crew with group } :: earlier, phases, log⟩
  | giveUp {steps : List PlanStep} {crew : Crew} {group : SyncGroup} {failure : Failure}
      {earlier : List Crew} {phases : List Phase} {log : Log}
      (hdrained : crew.group.isDrained = true)
      (hresult : crew.group.result = (group, .error failure)) :
      Step command tree world ⟨.draining steps, crew :: earlier, phases, log⟩
        (command.close (.error failure) ({ crew with group } :: earlier) phases log)
  | finish {crews : List Crew} {phases : List Phase} {log : Log} :
      Step command tree world ⟨.between [], crews, phases, log⟩
        (command.close (command.plan tree).outcome crews phases log)
  | work {control : Control} (later : List Crew) {earlier : List Crew} {crew next : Crew}
      {phases : List Phase} {log told : Log} (hcrew : crew.Step tree world next told) :
      Step command tree world ⟨control, later ++ crew :: earlier, phases, log⟩
        ⟨control, later ++ next :: earlier, phases, log ++ told⟩

def start (command : ClusterCommand) (tree : FileTree) : ExecutionState :=
  ⟨.between (command.plan tree).steps, [], [.resolvingTargets], []⟩

def Reachable (command : ClusterCommand) (tree : FileTree) (world : World)
    (state : ExecutionState) : Prop :=
  Relation.ReflTransGen (command.Step tree world) (command.start tree) state

def MayLeave (command : ClusterCommand) (tree : FileTree) (world : World) (run : Run) : Prop :=
  ∃ state, command.Reachable tree world state ∧ state.run? = some run

end ClusterCommand

end IndexFleet
