import IndexFleet.Proofs.SyncGroup
import IndexFleet.SyncGroup.Session

namespace IndexFleet

-- What is asked of a notifier. A ticket tells one registration from all others.
inductive NotifyCall
  | register (ticket : Nat)
  | notifyWaiters
  deriving Repr, DecidableEq

-- A notifier is known by its answers: whether a registration is marked after some calls, of which
-- the latest one comes first.
structure Notify where
  isMarked : List NotifyCall → Nat → Bool

-- What is relied on of a notifier.
structure Notify.IsLawful (notify : Notify) : Prop where
  -- all registrations that were made before a call for all waiters are marked by it
  marks : ∀ calls ticket, .register ticket ∈ calls →
    notify.isMarked (.notifyWaiters :: calls) ticket = true
  -- no such call is kept for a registration that comes after it
  fresh : ∀ calls ticket, .register ticket ∉ calls →
    notify.isMarked (.register ticket :: calls) ticket = false
  -- the registrations of others change nothing
  others : ∀ calls ticket other, other ≠ ticket →
    notify.isMarked (.register other :: calls) ticket = notify.isMarked calls ticket

-- A registration is marked if there was a call for all waiters since.
def Notify.broadcast : Notify :=
  ⟨fun calls ticket => (calls.takeWhile (· != .register ticket)).contains .notifyWaiters⟩

theorem Notify.isLawful_broadcast : broadcast.IsLawful where
  marks calls ticket _ := by simp [broadcast]
  fresh calls ticket _ := by simp [broadcast]
  others calls ticket other hother := by simp [broadcast, hother]

namespace SyncGroup

-- A group as its threads see it. A decrement that leaves no task behind owes its notifier a call,
-- which comes after it.
structure Shared where
  group : SyncGroup
  calls : List NotifyCall
  owed : Nat

namespace Shared

def start : Shared := ⟨.empty, [], 0⟩

def increment (shared : Shared) : Shared := { shared with group := shared.group.increment }

def decrement (shared : Shared) : Shared × Log :=
  let (group, log) := shared.group.decrement
  let owed := if shared.group.outstanding = 1 then shared.owed + 1 else shared.owed
  (⟨group, shared.calls, owed⟩, log)

-- Nobody calls the notifier without owing it.
def notifyWaiters (shared : Shared) : Shared :=
  if shared.owed = 0 then shared
  else ⟨shared.group, .notifyWaiters :: shared.calls, shared.owed - 1⟩

def register (shared : Shared) : Shared :=
  { shared with calls := .register shared.calls.length :: shared.calls }

@[simp]
theorem group_notifyWaiters (shared : Shared) : shared.notifyWaiters.group = shared.group := by
  unfold notifyWaiters
  split <;> rfl

end Shared

def Answer.isDone : Answer → Bool
  | .ready | .finished _ => true
  | _ => false

-- How far a waiter has come in its loop.
inductive Place
  -- about to register
  | outside
  -- registered, and about to read the count
  | registered (ticket : Nat)
  -- it has read a count that is not zero and waits to be marked
  | waiting (ticket : Nat)
  -- it has read a count of zero
  | released
  deriving Repr, DecidableEq

structure Watch where
  waiter : Waiter
  place : Place
  deriving Repr, DecidableEq

-- What comes of one step of a waiter: its poll goes on from another place, or it ends for now, or
-- the waiter is done.
inductive Progress
  | goesOn (place : Place)
  | pending
  | ended (answer : Answer)

-- One step of a waiter. A poll is made of such steps, and others may take theirs between them.
def Watch.advance (notify : Notify) (shared : Shared) (watch : Watch) : Shared × Progress :=
  match watch.place with
  | .outside => (shared.register, .goesOn (.registered shared.calls.length))
  | .registered ticket =>
      (shared, .goesOn (if shared.group.isDrained then .released else .waiting ticket))
  | .waiting ticket =>
      (shared, if notify.isMarked shared.calls ticket then .goesOn .outside else .pending)
  | .released =>
      match watch.waiter with
      | .drained => (shared, .ended .ready)
      | .result =>
          let (group, result) := shared.group.result
          ({ shared with group }, .ended (.finished result))

-- All that a step of a waiter can be.
inductive Watch.Advances (notify : Notify) (shared : Shared) : Watch → Shared → Progress → Prop
  | register {waiter : Waiter} :
      Advances notify shared ⟨waiter, .outside⟩ shared.register
        (.goesOn (.registered shared.calls.length))
  | release {waiter : Waiter} {ticket : Nat} (hzero : shared.group.outstanding = 0) :
      Advances notify shared ⟨waiter, .registered ticket⟩ shared (.goesOn .released)
  | wait {waiter : Waiter} {ticket : Nat} (hbusy : shared.group.outstanding ≠ 0) :
      Advances notify shared ⟨waiter, .registered ticket⟩ shared (.goesOn (.waiting ticket))
  | wake {waiter : Waiter} {ticket : Nat} (hmarked : notify.isMarked shared.calls ticket = true) :
      Advances notify shared ⟨waiter, .waiting ticket⟩ shared (.goesOn .outside)
  | sleep {waiter : Waiter} {ticket : Nat}
      (hunmarked : ¬notify.isMarked shared.calls ticket = true) :
      Advances notify shared ⟨waiter, .waiting ticket⟩ shared .pending
  | ready : Advances notify shared ⟨.drained, .released⟩ shared (.ended .ready)
  | finish :
      Advances notify shared ⟨.result, .released⟩ { shared with group := shared.group.result.1 }
        (.ended (.finished shared.group.result.2))

theorem Watch.advances (notify : Notify) (shared : Shared) (watch : Watch) :
    Advances notify shared watch (watch.advance notify shared).1
      (watch.advance notify shared).2 := by
  obtain ⟨waiter, place⟩ := watch
  cases place with
  | outside => exact .register
  | registered ticket =>
      simp only [advance]
      by_cases hzero : shared.group.outstanding = 0
      · rw [if_pos (isDrained_iff.mpr hzero)]
        exact .release hzero
      · rw [if_neg (mt isDrained_iff.mp hzero)]
        exact .wait hzero
  | waiting ticket =>
      simp only [advance]
      by_cases hmarked : notify.isMarked shared.calls ticket = true
      · rw [if_pos hmarked]
        exact .wake hmarked
      · rw [if_neg hmarked]
        exact .sleep hmarked
  | released =>
      cases waiter with
      | drained => exact .ready
      | result => exact .finish

theorem Watch.advances_of_eq {notify : Notify} {shared after : Shared} {watch : Watch}
    {progress : Progress} (hstep : watch.advance notify shared = (after, progress)) :
    Advances notify shared watch after progress := by
  have hadvances := watch.advances notify shared
  rwa [hstep] at hadvances

namespace Shared

variable {notify : Notify} {shared before after : Shared} {ticket : Nat}

def IsNumbered (shared : Shared) : Prop :=
  ∀ ticket, .register ticket ∈ shared.calls → ticket < shared.calls.length

-- A registration that is not forgotten: it is marked, or somebody will see to it, be it a task that
-- counts or one that owes the notifier a call.
def IsMarkedOrPending (notify : Notify) (shared : Shared) (ticket : Nat) : Prop :=
  notify.isMarked shared.calls ticket = true ∨ shared.group.outstanding ≠ 0 ∨ shared.owed ≠ 0

-- What a step of anybody leaves to those who wait.
structure KeepsTickets (notify : Notify) (before after : Shared) : Prop where
  numbered : after.IsNumbered
  registered : ∀ ticket, .register ticket ∈ before.calls → .register ticket ∈ after.calls
  markedOrPending : ∀ ticket, .register ticket ∈ before.calls →
    before.IsMarkedOrPending notify ticket → after.IsMarkedOrPending notify ticket

theorem isNumbered_start : start.IsNumbered := fun _ hticket => nomatch hticket

-- Steps that call no notifier leave the tickets as they are.
theorem keepsTickets_of_calls (hnumbered : before.IsNumbered) (hcalls : after.calls = before.calls)
    (hpending : before.group.outstanding ≠ 0 ∨ before.owed ≠ 0 →
      after.group.outstanding ≠ 0 ∨ after.owed ≠ 0) : before.KeepsTickets notify after := by
  constructor
  · rwa [IsNumbered, hcalls]
  · intro ticket hticket
    rwa [hcalls]
  · intro ticket _ hmarked
    rw [IsMarkedOrPending, hcalls]
    exact hmarked.imp_right hpending

theorem keepsTickets_of_outstanding (hnumbered : shared.IsNumbered) {group : SyncGroup}
    (hgroup : group.outstanding = shared.group.outstanding) :
    shared.KeepsTickets notify { shared with group } :=
  keepsTickets_of_calls hnumbered rfl (by simp [hgroup])

theorem keepsTickets_increment (hnumbered : shared.IsNumbered) :
    shared.KeepsTickets notify shared.increment := by
  apply keepsTickets_of_calls hnumbered
  · rfl
  · simp [increment, SyncGroup.increment]

theorem keepsTickets_decrement (hnumbered : shared.IsNumbered) :
    shared.KeepsTickets notify shared.decrement.1 := by
  apply keepsTickets_of_calls hnumbered
  · rfl
  · intro hpending
    -- only the last task can leave nobody behind, and then it owes the call
    by_cases hlast : shared.group.outstanding = 1
    · simp [decrement, hlast]
    · have hless := shared.group.outstanding_decrement
      simp only [decrement, hlast, if_false]
      omega

theorem keepsTickets_notifyWaiters (hlawful : notify.IsLawful) (hnumbered : shared.IsNumbered) :
    shared.KeepsTickets notify shared.notifyWaiters := by
  unfold notifyWaiters
  split
  case isTrue => exact keepsTickets_of_calls hnumbered rfl id
  case isFalse =>
    constructor
    · intro ticket hticket
      have hbefore : .register ticket ∈ shared.calls := by simpa using hticket
      have hless := hnumbered ticket hbefore
      exact Nat.lt_succ_of_lt hless
    · intro ticket hticket
      exact List.mem_cons_of_mem _ hticket
    · intro ticket hticket _
      exact .inl (hlawful.marks _ _ hticket)

theorem not_mem_register (hnumbered : shared.IsNumbered) :
    NotifyCall.register shared.calls.length ∉ shared.calls := by
  intro hmem
  exact Nat.lt_irrefl _ (hnumbered _ hmem)

theorem keepsTickets_register (hlawful : notify.IsLawful) (hnumbered : shared.IsNumbered) :
    shared.KeepsTickets notify shared.register := by
  constructor
  · intro ticket hticket
    simp only [register, List.mem_cons, NotifyCall.register.injEq] at hticket
    simp only [register, List.length_cons]
    rcases hticket with hfresh | hold
    · omega
    · have hless := hnumbered ticket hold
      omega
  · intro ticket hticket
    exact List.mem_cons_of_mem _ hticket
  · intro ticket hticket hpending
    have hother : shared.calls.length ≠ ticket := Nat.ne_of_gt (hnumbered ticket hticket)
    rw [IsMarkedOrPending, register, hlawful.others _ _ _ hother]
    exact hpending

theorem keepsTickets_advance (hlawful : notify.IsLawful) (hnumbered : before.IsNumbered)
    {watch : Watch} {progress : Progress} (hstep : watch.advance notify before = (after, progress)) :
    before.KeepsTickets notify after := by
  cases Watch.advances_of_eq hstep with
  | register => exact keepsTickets_register hlawful hnumbered
  | release | wait | wake | sleep | ready => exact keepsTickets_of_calls hnumbered rfl id
  | finish => exact keepsTickets_of_outstanding hnumbered (outstanding_result _)

end Shared

-- What a waiter can rely on at each place: it is registered, and it does not wait in vain.
def Place.IsWakeable (notify : Notify) (shared : Shared) : Place → Prop
  | .outside | .released => True
  | .registered ticket => .register ticket ∈ shared.calls
  | .waiting ticket => .register ticket ∈ shared.calls ∧ shared.IsMarkedOrPending notify ticket

variable {notify : Notify} {shared before after : Shared} {place : Place} {watch : Watch}

theorem Place.IsWakeable.keep (hkeeps : before.KeepsTickets notify after)
    (h : place.IsWakeable notify before) : place.IsWakeable notify after := by
  cases place with
  | outside => trivial
  | released => trivial
  | registered ticket => exact hkeeps.registered ticket h
  | waiting ticket => exact ⟨hkeeps.registered ticket h.1, hkeeps.markedOrPending ticket h.1 h.2⟩

theorem Watch.isWakeable_of_goesOn (h : watch.place.IsWakeable notify shared)
    (hstep : watch.advance notify shared = (after, .goesOn place)) :
    place.IsWakeable notify after := by
  cases advances_of_eq hstep with
  | register => exact List.mem_cons_self
  -- a waiter that has read another count than zero has seen the task that it waits for
  | wait hbusy => exact ⟨h, .inr (.inl hbusy)⟩
  | release | wake => trivial

-- A poll that ends without result has left a task behind, or a call that is still owed.
theorem Watch.busy_or_owed_of_pending (h : watch.place.IsWakeable notify shared)
    (hstep : watch.advance notify shared = (after, .pending)) :
    shared.group.outstanding ≠ 0 ∨ shared.owed ≠ 0 := by
  cases advances_of_eq hstep with
  | sleep hunmarked => exact h.2.resolve_left hunmarked

theorem Watch.outstanding_advance {progress : Progress}
    (hstep : watch.advance notify shared = (after, progress)) :
    after.group.outstanding = shared.group.outstanding := by
  cases advances_of_eq hstep with
  | register | release | wait | wake | sleep | ready => rfl
  | finish => exact outstanding_result shared.group

theorem Watch.owed_advance {progress : Progress}
    (hstep : watch.advance notify shared = (after, progress)) : after.owed = shared.owed := by
  cases advances_of_eq hstep <;> rfl

theorem Watch.group_of_goesOn (hstep : watch.advance notify shared = (after, .goesOn place)) :
    after.group = shared.group := by
  cases advances_of_eq hstep <;> rfl

-- A waiter is released by nothing but a count of zero.
theorem Watch.outstanding_of_released
    (hstep : watch.advance notify shared = (after, .goesOn .released)) :
    shared.group.outstanding = 0 := by
  cases advances_of_eq hstep with
  | release hzero => exact hzero

theorem Watch.ne_released_of_pending (hstep : watch.advance notify shared = (after, .pending)) :
    watch.place ≠ .released := by
  cases advances_of_eq hstep with
  | sleep => exact nofun

theorem Watch.isDone_of_ended {answer : Answer}
    (hstep : watch.advance notify shared = (after, .ended answer)) : answer.isDone = true := by
  cases advances_of_eq hstep <;> rfl

theorem Watch.place_of_ended {answer : Answer}
    (hstep : watch.advance notify shared = (after, .ended answer)) : watch.place = .released := by
  cases advances_of_eq hstep <;> rfl

end SyncGroup

end IndexFleet
