import IndexFleet.Failure
import IndexFleet.Log

namespace IndexFleet

-- What the tasks of one wave have in common: how many of them are not finished, and the first
-- failure among them.
structure SyncGroup where
  outstanding : Nat
  failure : Option Failure
  deriving Repr, DecidableEq, Inhabited

namespace SyncGroup

def empty : SyncGroup := ⟨0, none⟩

def increment (group : SyncGroup) : SyncGroup :=
  { group with outstanding := group.outstanding + 1 }

-- One task is finished. A group without tasks stays as it is, which is told.
def decrement (group : SyncGroup) : SyncGroup × Log :=
  if group.outstanding = 0 then
    (group, [.warn "sync group decremented below zero, ignoring"])
  else ({ group with outstanding := group.outstanding - 1 }, [])

-- Keeps a failure if it is the first one, which is answered.
def record (group : SyncGroup) (failure : Failure) : SyncGroup × Bool :=
  match group.failure with
  | some _ => (group, false)
  | none => ({ group with failure := some failure }, true)

def hasFailed (group : SyncGroup) : Bool := group.failure.isSome

def take (group : SyncGroup) : SyncGroup × Option Failure :=
  ({ group with failure := none }, group.failure)

def isDrained (group : SyncGroup) : Bool := group.outstanding = 0

def result (group : SyncGroup) : SyncGroup × Except Failure Unit :=
  match group.take with
  | (group, some failure) => (group, .error failure)
  | (group, none) => (group, .ok ())

end SyncGroup

end IndexFleet
