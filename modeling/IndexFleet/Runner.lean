import IndexFleet.SyncGroup

namespace IndexFleet

inductive TaskEnd
  | succeeded (answer : String)
  | failed (failure : Failure)
  | panicked
  deriving Repr, DecidableEq, Inhabited

structure Task where
  label : String
  ending : TaskEnd
  deriving Repr, DecidableEq, Inhabited

namespace Task

def failure? (task : Task) : Option Failure :=
  match task.ending with
  | .succeeded _ => none
  | .failed failure => some failure
  | .panicked => some (.taskPanicked task.label)

def notes (task : Task) : Log :=
  match task.ending with
  | .succeeded _ => []
  | .failed failure => [.error s!"{task.label} failed: {failure.message}"]
  | .panicked => [.error s!"task {task.label} panicked"]

-- A task that ends records its failure, if any, and then counts as finished.
def finish (task : Task) (group : SyncGroup) : SyncGroup × Log :=
  let group := match task.failure? with
    | some failure => (group.record failure).1
    | none => group
  let (group, log) := group.decrement
  (group, task.notes ++ log)

end Task

structure Runner where
  group : SyncGroup
  waiting : List Task
  deriving Repr, Inhabited

namespace Runner

def start : Runner := ⟨.empty, []⟩

-- A task counts from the moment it is started.
def spawn (runner : Runner) (task : Task) : Runner :=
  ⟨runner.group.increment, runner.waiting ++ [task]⟩

def finishAll (group : SyncGroup) : List Task → SyncGroup × Log
  | [] => (group, [])
  | task :: rest =>
      let (group, log) := task.finish group
      let (group, more) := finishAll group rest
      (group, log ++ more)

def wait (runner : Runner) : Runner × Log :=
  let (group, log) := finishAll runner.group runner.waiting
  (⟨group, []⟩, log)

def drain (runner : Runner) : Runner × Except Failure Unit × Log :=
  let (runner, log) := runner.wait
  let (group, result) := runner.group.result
  ({ runner with group }, result, log)

inductive Step
  | spawn (task : Task)
  | wait
  | drain
  deriving Repr, Inhabited

def step (runner : Runner) : Step → Runner × Option (Except Failure Unit) × Log
  | .spawn task => (runner.spawn task, none, [])
  | .wait =>
      let (runner, log) := runner.wait
      (runner, none, log)
  | .drain =>
      let (runner, result, log) := runner.drain
      (runner, some result, log)

def run (runner : Runner) : List Step → List (Option (Except Failure Unit) × SyncGroup) × Log
  | [] => ([], [])
  | first :: rest =>
      let (runner, result, log) := runner.step first
      let (results, more) := run runner rest
      ((result, runner.group) :: results, log ++ more)

end Runner

end IndexFleet
