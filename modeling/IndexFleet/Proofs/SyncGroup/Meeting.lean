import IndexFleet.Proofs.SyncGroup.Waiting
import Mathlib.Data.List.Basic

namespace IndexFleet.SyncGroup

-- A group with all who wait for it, each of them under a key.
structure Meeting where
  shared : Shared
  watches : List (String × Watch)

-- What is done next, by any of the threads.
inductive Move
  | increment
  | decrement
  -- somebody who owes the notifier a call makes it
  | notify
  | record (failure : Failure)
  | take
  -- starts to wait under a key, in place of whoever waits under it
  | start (key : String) (waiter : Waiter)
  -- the waiter under a key takes a step of its poll
  | advance (key : String)
  deriving Repr, DecidableEq

-- The waiter that a move is about.
def Move.key? : Move → Option String
  | .start key _ | .advance key => some key
  | _ => none

namespace Meeting

def start : Meeting := ⟨.start, []⟩

def withGroup (meeting : Meeting) (group : SyncGroup) : Meeting :=
  { meeting with shared := { meeting.shared with group } }

def forget (meeting : Meeting) (key : String) : Meeting :=
  { meeting with watches := meeting.watches.filter (·.1 != key) }

def moved (watches : List (String × Watch)) (key : String) (place : Place) :
    List (String × Watch) :=
  watches.map fun entry => (entry.1, if entry.1 = key then { entry.2 with place } else entry.2)

def advance (notify : Notify) (meeting : Meeting) (key : String) : Meeting × Answer :=
  match meeting.watches.lookup key with
  | none => (meeting, .unknown)
  | some watch =>
      match watch.advance notify meeting.shared with
      | (shared, .goesOn place) => (⟨shared, moved meeting.watches key place⟩, .nothing)
      | (shared, .pending) => (⟨shared, meeting.watches⟩, .pending)
      | (shared, .ended answer) => (forget ⟨shared, meeting.watches⟩ key, answer)

def step (notify : Notify) (meeting : Meeting) : Move → Meeting × Answer × Log
  | .increment => ({ meeting with shared := meeting.shared.increment }, .nothing, [])
  | .decrement =>
      let (shared, log) := meeting.shared.decrement
      ({ meeting with shared }, .nothing, log)
  | .notify => ({ meeting with shared := meeting.shared.notifyWaiters }, .nothing, [])
  | .record failure =>
      let (group, first) := meeting.shared.group.record failure
      (meeting.withGroup group, .recorded first, [])
  | .take =>
      let (group, failure) := meeting.shared.group.take
      (meeting.withGroup group, .taken failure, [])
  | .start key waiter =>
      let rest := meeting.forget key
      ({ rest with watches := (key, ⟨waiter, .outside⟩) :: rest.watches }, .nothing, [])
  | .advance key =>
      let (after, answer) := meeting.advance notify key
      (after, answer, [])

def after (notify : Notify) (meeting : Meeting) (moves : List Move) : Meeting :=
  moves.foldl (fun meeting move => (meeting.step notify move).1) meeting

variable {notify : Notify} {meeting later : Meeting} {key : String} {answer : Answer}

theorem lookup_moved (watches : List (String × Watch)) (key other : String) (place : Place) :
    (moved watches key place).lookup other =
      if other = key then (watches.lookup other).map ({ · with place })
      else watches.lookup other := by
  induction watches with
  | nil => simp [moved]
  | cons entry watches ih =>
      obtain ⟨name, watch⟩ := entry
      simp only [moved, List.map_cons, List.lookup_cons] at ih ⊢
      by_cases hname : other = name
      · subst hname
        by_cases hkey : other = key <;> simp [hkey]
      · simp only [beq_eq_false_iff_ne.mpr hname, ih]

theorem lookup_forget (watches : List (String × Watch)) (key other : String) :
    (watches.filter (·.1 != key)).lookup other =
      if other = key then none else watches.lookup other := by
  induction watches with
  | nil => simp
  | cons entry watches ih =>
      obtain ⟨name, watch⟩ := entry
      by_cases hname : name = key
      · subst hname
        by_cases hother : other = name
        · simpa [hother] using ih
        · simpa [hother, List.lookup_cons, beq_eq_false_iff_ne.mpr hother] using ih
      · simp only [List.filter_cons, bne_iff_ne, ne_eq, hname, not_false_eq_true, if_true,
          List.lookup_cons, ih]
        by_cases hother : other = name
        · simp [hother, hname]
        · simp [beq_eq_false_iff_ne.mpr hother]

-- All that a step of the waiter under a key can be.
inductive Advances (notify : Notify) (meeting : Meeting) (key : String) : Meeting → Answer → Prop
  | unknown (hwatch : meeting.watches.lookup key = none) :
      Advances notify meeting key meeting .unknown
  | goesOn {watch : Watch} {shared : Shared} {place : Place}
      (hwatch : meeting.watches.lookup key = some watch)
      (hadvance : watch.advance notify meeting.shared = (shared, .goesOn place)) :
      Advances notify meeting key ⟨shared, moved meeting.watches key place⟩ .nothing
  | pending {watch : Watch} {shared : Shared} (hwatch : meeting.watches.lookup key = some watch)
      (hadvance : watch.advance notify meeting.shared = (shared, .pending)) :
      Advances notify meeting key ⟨shared, meeting.watches⟩ .pending
  | ended {watch : Watch} {shared : Shared} {answer : Answer}
      (hwatch : meeting.watches.lookup key = some watch)
      (hadvance : watch.advance notify meeting.shared = (shared, .ended answer))
      (hdone : answer.isDone = true) :
      Advances notify meeting key (forget ⟨shared, meeting.watches⟩ key) answer

theorem advances_of_eq (hstep : meeting.advance notify key = (later, answer)) :
    Advances notify meeting key later answer := by
  cases hwatch : meeting.watches.lookup key with
  | none =>
      simp only [advance, hwatch] at hstep
      obtain ⟨rfl, rfl⟩ := Prod.mk.inj hstep
      exact .unknown hwatch
  | some watch =>
      cases hadvance : watch.advance notify meeting.shared with
      | mk shared progress =>
          simp only [advance, hwatch, hadvance] at hstep
          cases progress <;> obtain ⟨rfl, rfl⟩ := Prod.mk.inj hstep
          case goesOn => exact .goesOn hwatch hadvance
          case pending => exact .pending hwatch hadvance
          case ended => exact .ended hwatch hadvance (Watch.isDone_of_ended hadvance)

theorem lookup_advance_of_ne {other : String}
    (hstep : meeting.advance notify key = (later, answer)) (hother : other ≠ key) :
    later.watches.lookup other = meeting.watches.lookup other := by
  cases advances_of_eq hstep with
  | unknown => rfl
  | goesOn => simp [lookup_moved, hother]
  | pending => rfl
  | ended => simp [forget, lookup_forget, hother]

-- Moves about nobody or about others leave a waiter where it is.
theorem lookup_step_of_other {move : Move} (hother : move.key? ≠ some key) :
    (meeting.step notify move).1.watches.lookup key = meeting.watches.lookup key := by
  cases move with
  | increment | decrement | notify | record failure | take => rfl
  | start other waiter =>
      have hne : key ≠ other := fun hsame => hother (congrArg some hsame.symm)
      simp [step, forget, List.lookup_cons, beq_eq_false_iff_ne.mpr hne, lookup_forget, hne]
  | advance other =>
      have hne : key ≠ other := fun hsame => hother (congrArg some hsame.symm)
      exact lookup_advance_of_ne rfl hne

theorem lookup_start (notify : Notify) (meeting : Meeting) (key : String) (waiter : Waiter) :
    (meeting.step notify (.start key waiter)).1.watches.lookup key = some ⟨waiter, .outside⟩ := by
  simp [step]

theorem mem_of_lookup {watches : List (String × Watch)} {watch : Watch}
    (hlookup : watches.lookup key = some watch) : (key, watch) ∈ watches := by
  obtain ⟨before, behind, rfl, _⟩ := List.lookup_eq_some_iff.mp hlookup
  simp

-- A meeting in which nobody waits in vain.
structure IsSound (notify : Notify) (meeting : Meeting) : Prop where
  numbered : meeting.shared.IsNumbered
  wakeable : ∀ entry ∈ meeting.watches, entry.2.place.IsWakeable notify meeting.shared

theorem isSound_start : start.IsSound notify where
  numbered := Shared.isNumbered_start
  wakeable := fun _ hentry => nomatch hentry

-- Who takes no part in a step keeps what it relies on.
theorem IsSound.keep {shared : Shared} (hsound : meeting.IsSound notify)
    (hkeeps : meeting.shared.KeepsTickets notify shared) :
    IsSound notify { meeting with shared } where
  numbered := hkeeps.numbered
  wakeable entry hentry := (hsound.wakeable entry hentry).keep hkeeps

theorem IsSound.forget (hsound : meeting.IsSound notify) (key : String) :
    (meeting.forget key).IsSound notify where
  numbered := hsound.numbered
  wakeable entry hentry := hsound.wakeable entry (List.mem_of_mem_filter hentry)

theorem IsSound.goesOn {shared : Shared} {watch : Watch} {place : Place}
    (hlawful : notify.IsLawful) (hsound : meeting.IsSound notify)
    (hwatch : meeting.watches.lookup key = some watch)
    (hstep : watch.advance notify meeting.shared = (shared, .goesOn place)) :
    IsSound notify ⟨shared, moved meeting.watches key place⟩ := by
  have hkeeps := Shared.keepsTickets_advance hlawful hsound.numbered hstep
  refine ⟨hkeeps.numbered, fun entry hentry => ?_⟩
  obtain ⟨old, hold, rfl⟩ := List.mem_map.mp hentry
  by_cases hkey : old.1 = key
  · simp only [hkey, if_true]
    exact Watch.isWakeable_of_goesOn (hsound.wakeable _ (mem_of_lookup hwatch)) hstep
  · simp only [hkey, if_false]
    exact (hsound.wakeable old hold).keep hkeeps

theorem IsSound.advance (hlawful : notify.IsLawful) (hsound : meeting.IsSound notify)
    (hstep : meeting.advance notify key = (later, answer)) : later.IsSound notify := by
  cases advances_of_eq hstep with
  | unknown => exact hsound
  | goesOn hwatch hadvance => exact hsound.goesOn hlawful hwatch hadvance
  | pending hwatch hadvance =>
      exact hsound.keep (Shared.keepsTickets_advance hlawful hsound.numbered hadvance)
  | ended hwatch hadvance =>
      have hled := hsound.keep (Shared.keepsTickets_advance hlawful hsound.numbered hadvance)
      exact hled.forget key

theorem IsSound.step (hlawful : notify.IsLawful) (hsound : meeting.IsSound notify) (move : Move) :
    (meeting.step notify move).1.IsSound notify := by
  have hnumbered := hsound.numbered
  cases move with
  | increment => exact hsound.keep (Shared.keepsTickets_increment hnumbered)
  | decrement => exact hsound.keep (Shared.keepsTickets_decrement hnumbered)
  | notify => exact hsound.keep (Shared.keepsTickets_notifyWaiters hlawful hnumbered)
  | record failure =>
      have hgroup := outstanding_record meeting.shared.group failure
      exact hsound.keep (Shared.keepsTickets_of_outstanding hnumbered hgroup)
  | take => exact hsound.keep (Shared.keepsTickets_of_outstanding hnumbered rfl)
  | start key waiter =>
      have hrest := hsound.forget key
      exact ⟨hrest.numbered, List.forall_mem_cons.mpr ⟨trivial, hrest.wakeable⟩⟩
  | advance key => exact hsound.advance hlawful rfl

theorem IsSound.after (hlawful : notify.IsLawful) (hsound : meeting.IsSound notify)
    (moves : List Move) : (meeting.after notify moves).IsSound notify := by
  induction moves generalizing meeting with
  | nil => exact hsound
  | cons move moves ih => exact ih (hsound.step hlawful move)

end Meeting

end IndexFleet.SyncGroup
