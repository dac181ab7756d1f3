import IndexFleet.SyncGroup

namespace IndexFleet.SyncGroup

inductive Waiter
  | drained
  | result
  deriving Repr, DecidableEq, Inhabited

structure Session where
  group : SyncGroup
  waiters : List (String × Waiter)
  deriving Repr, Inhabited

inductive Step
  | increment
  | decrement
  | record (failure : Failure)
  | take
  -- starts to wait under a key, in place of whoever waits under it, and polls
  | await (key : String) (waiter : Waiter)
  | poll (key : String)
  deriving Repr, Inhabited

inductive Answer
  | nothing
  | recorded (first : Bool)
  | taken (failure : Option Failure)
  | pending
  | ready
  | finished (result : Except Failure Unit)
  | unknown
  deriving Repr, Inhabited

namespace Session

def start : Session := ⟨.empty, []⟩

def forget (session : Session) (key : String) : Session :=
  { session with waiters := session.waiters.filter (·.1 != key) }

-- A waiter is done exactly if no task is left at the moment of the poll.
def poll (session : Session) (key : String) : Session × Answer :=
  match session.waiters.lookup key with
  | none => (session, .unknown)
  | some waiter =>
      if session.group.isDrained then
        match waiter with
        | .drained => (session.forget key, .ready)
        | .result =>
            let (group, result) := session.group.result
            ({ session.forget key with group }, .finished result)
      else (session, .pending)

def step (session : Session) : Step → Session × Answer × Log
  | .increment => ({ session with group := session.group.increment }, .nothing, [])
  | .decrement =>
      let (group, log) := session.group.decrement
      ({ session with group }, .nothing, log)
  | .record failure =>
      let (group, first) := session.group.record failure
      ({ session with group }, .recorded first, [])
  | .take =>
      let (group, failure) := session.group.take
      ({ session with group }, .taken failure, [])
  | .await key waiter =>
      let session := session.forget key
      let (session, answer) :=
        poll { session with waiters := (key, waiter) :: session.waiters } key
      (session, answer, [])
  | .poll key =>
      let (session, answer) := session.poll key
      (session, answer, [])

def run (session : Session) : List Step → List (Answer × SyncGroup) × Log
  | [] => ([], [])
  | first :: rest =>
      let (session, answer, log) := session.step first
      let (answers, more) := run session rest
      ((answer, session.group) :: answers, log ++ more)

end Session

end IndexFleet.SyncGroup
