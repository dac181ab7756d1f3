import IndexFleet.Proofs.SyncGroup.Refinement
import Mathlib.Data.List.Induction

namespace IndexFleet.SyncGroup

theorem Session.isDone_poll {session : Session} {key : String} {waiter : Waiter}
    (hwaiter : session.waiters.lookup key = some waiter) :
    (session.poll key).2.isDone = true ↔ session.group.outstanding = 0 := by
  rw [← isDrained_iff]
  simp only [poll, hwaiter]
  by_cases hdrained : session.group.isDrained = true
  · rw [if_pos hdrained]
    cases waiter <;> simp [Answer.isDone, hdrained]
  · rw [if_neg hdrained]
    simp [Answer.isDone, hdrained]

namespace Meeting

variable {notify : Notify} {meeting after : Meeting} {key : String} {watch : Watch}
  {answer : Answer} {moves : List Move}

def outstanding (meeting : Meeting) : Nat := meeting.shared.group.outstanding

-- How many of the decrements among moves find a task that counts.
def lessened (notify : Notify) (meeting : Meeting) : List Move → Nat
  | [] => 0
  | move :: rest =>
      (if move = .decrement ∧ meeting.outstanding ≠ 0 then 1 else 0) +
        lessened notify (meeting.step notify move).1 rest

theorem outstanding_advance (hstep : meeting.advance notify key = (after, answer)) :
    after.outstanding = meeting.outstanding := by
  cases advances_of_eq hstep with
  | unknown => rfl
  | goesOn _ hadvance | pending _ hadvance | ended _ hadvance =>
      exact Watch.outstanding_advance hadvance

theorem outstanding_step (notify : Notify) (meeting : Meeting) (move : Move) :
    (meeting.step notify move).1.outstanding +
        (if move = .decrement ∧ meeting.outstanding ≠ 0 then 1 else 0) =
      meeting.outstanding + if move = .increment then 1 else 0 := by
  cases move with
  | increment => simp [step, outstanding, Shared.increment, increment]
  | decrement =>
      have hless := meeting.shared.group.outstanding_decrement
      simp only [step, outstanding, Shared.decrement, reduceCtorEq, if_false, true_and]
      by_cases hzero : meeting.shared.group.outstanding = 0
      · simp [hless, hzero]
      · simp only [hless, ne_eq, hzero, not_false_eq_true, if_true]
        omega
  | notify =>
      simp only [step, outstanding, Shared.notifyWaiters, reduceCtorEq, false_and, if_false]
      split <;> rfl
  | record failure => simp [step, withGroup, outstanding, outstanding_record]
  | take => simp [step, withGroup, outstanding, SyncGroup.take]
  | start key waiter => simp [step, forget, outstanding]
  | advance key =>
      have hsame : (meeting.advance notify key).1.outstanding = meeting.outstanding :=
        outstanding_advance rfl
      simpa [step] using hsame

theorem outstanding_after (notify : Notify) (meeting : Meeting) (moves : List Move) :
    (meeting.after notify moves).outstanding + lessened notify meeting moves =
      meeting.outstanding + moves.count .increment := by
  induction moves generalizing meeting with
  | nil => rfl
  | cons move moves ih =>
      have hone := outstanding_step notify meeting move
      have hrest := ih (meeting.step notify move).1
      have hafter : meeting.after notify (move :: moves) =
          (meeting.step notify move).1.after notify moves := rfl
      rw [hafter, lessened, List.count_cons]
      simp only [beq_iff_eq]
      omega

theorem after_concat (notify : Notify) (meeting : Meeting) (moves : List Move) (move : Move) :
    meeting.after notify (moves ++ [move]) = ((meeting.after notify moves).step notify move).1 := by
  simp [after]

theorem outstanding_of_released (hstep : meeting.advance notify key = (after, answer))
    (hwatch : after.watches.lookup key = some watch) (hreleased : watch.place = .released) :
    meeting.outstanding = 0 := by
  cases advances_of_eq hstep with
  | unknown hnone => exact nomatch hnone.symm.trans hwatch
  | goesOn hbefore hadvance =>
      simp only [lookup_moved, if_true, hbefore, Option.map_some, Option.some.injEq] at hwatch
      subst hwatch
      obtain rfl : _ = Place.released := hreleased
      exact Watch.outstanding_of_released hadvance
  | pending hbefore hadvance =>
      obtain rfl := Option.some.inj (hbefore.symm.trans hwatch)
      exact absurd hreleased (Watch.ne_released_of_pending hadvance)
  | ended => simp [forget, lookup_forget] at hwatch

-- Of the moves about a waiter, none but its own step releases it.
theorem eq_advance_of_released {move : Move} (hkey : move.key? = some key)
    (hwatch : (meeting.step notify move).1.watches.lookup key = some watch)
    (hreleased : watch.place = .released) : move = .advance key ∧ meeting.outstanding = 0 := by
  cases move with
  | increment | decrement | notify | record failure | take => exact nomatch hkey
  | start other waiter =>
      obtain rfl := Option.some.inj hkey
      rw [lookup_start] at hwatch
      obtain rfl := Option.some.inj hwatch
      exact nomatch hreleased
  | advance other =>
      obtain rfl := Option.some.inj hkey
      exact ⟨rfl, outstanding_of_released rfl hwatch hreleased⟩

-- The latest move about a waiter was a step of its own, at a count of zero.
def HasReadZero (notify : Notify) (moves : List Move) (key : String) : Prop :=
  ∃ before between, moves = before ++ .advance key :: between ∧
    (start.after notify before).outstanding = 0 ∧ ∀ move ∈ between, move.key? ≠ some key

theorem hasReadZero_of_released (notify : Notify) (moves : List Move)
    (hwatch : (start.after notify moves).watches.lookup key = some watch)
    (hreleased : watch.place = .released) : HasReadZero notify moves key := by
  induction moves using List.reverseRecOn with
  | nil => exact nomatch hwatch
  | append_singleton moves move ih =>
      rw [after_concat] at hwatch
      by_cases hkey : move.key? = some key
      · obtain ⟨rfl, hzero⟩ := eq_advance_of_released hkey hwatch hreleased
        exact ⟨moves, [], rfl, hzero, fun _ hmove => nomatch hmove⟩
      · rw [lookup_step_of_other hkey] at hwatch
        obtain ⟨before, between, rfl, hzero, hbetween⟩ := ih hwatch
        refine ⟨before, between ++ [move], by simp, hzero, ?_⟩
        exact List.forall_mem_append.mpr ⟨hbetween, List.forall_mem_singleton.mpr hkey⟩

-- Whatever the threads have done before, and in whatever order.
structure IsWakeful (notify : Notify) (moves : List Move) : Prop where
  -- the count is that of all increments, less the decrements that found it positive
  counted : (start.after notify moves).outstanding + lessened notify start moves =
    moves.count .increment
  -- a decrement that finds no task changes nothing
  ignored : (start.after notify moves).outstanding = 0 →
    ((start.after notify moves).step notify .decrement).1 = start.after notify moves
  -- while there is no task and no call is owed, nobody waits without being marked
  awake : (start.after notify moves).outstanding = 0 → (start.after notify moves).shared.owed = 0 →
    ∀ entry ∈ (start.after notify moves).watches, ∀ ticket, entry.2.place = .waiting ticket →
      notify.isMarked (start.after notify moves).shared.calls ticket = true
  -- a poll that nothing comes between ends, and has a result exactly if there is no task
  polls : ∀ key watch, (start.after notify moves).watches.lookup key = some watch →
    watch.place ≠ .released →
    (∀ ticket, watch.place = .waiting ticket → (start.after notify moves).shared.owed = 0) →
    (∃ after answer, Polls notify key (start.after notify moves) after answer) ∧
      ∀ after answer, Polls notify key (start.after notify moves) after answer →
        (answer.isDone = true ↔ (start.after notify moves).outstanding = 0)
  -- with others between its steps, a poll has a result only if it has read zero just before
  completes : ∀ key, ((start.after notify moves).step notify (.advance key)).2.1.isDone = true →
    HasReadZero notify moves key
  -- and no result comes only if there is a task, or a call that is owed
  pending : ∀ key, ((start.after notify moves).step notify (.advance key)).2.1 = .pending →
    (start.after notify moves).outstanding ≠ 0 ∨ (start.after notify moves).shared.owed ≠ 0

theorem step_decrement_of_outstanding (hzero : meeting.outstanding = 0) :
    (meeting.step notify .decrement).1 = meeting := by
  have hgroup : meeting.shared.group.outstanding = 0 := hzero
  simp [step, Shared.decrement, SyncGroup.decrement, hgroup]

theorem IsSound.isMarked (hsound : meeting.IsSound notify) (hzero : meeting.outstanding = 0)
    (howed : meeting.shared.owed = 0) {entry : String × Watch} (hentry : entry ∈ meeting.watches)
    {ticket : Nat} (hplace : entry.2.place = .waiting ticket) :
    notify.isMarked meeting.shared.calls ticket = true := by
  have hwakeable := hsound.wakeable entry hentry
  rw [hplace] at hwakeable
  rcases hwakeable.2 with hmarked | hbusy | howes
  · exact hmarked
  · exact absurd hzero hbusy
  · exact absurd howed howes

theorem IsSound.polls (hlawful : notify.IsLawful) (hsound : meeting.IsSound notify)
    (hwatch : meeting.watches.lookup key = some watch) (hplace : watch.place ≠ .released)
    (howed : ∀ ticket, watch.place = .waiting ticket → meeting.shared.owed = 0) :
    (∃ after answer, Polls notify key meeting after answer) ∧
      ∀ after answer, Polls notify key meeting after answer →
        (answer.isDone = true ↔ meeting.outstanding = 0) := by
  obtain ⟨after, answer, hpolls, hpoll⟩ := hsound.pollsAs hlawful hwatch hplace howed
  refine ⟨⟨after, answer, hpolls⟩, fun other another hother => ?_⟩
  obtain ⟨_, rfl⟩ := hpolls.unique hother
  have hwaiter : meeting.session.waiters.lookup key = some watch.waiter := by
    rw [lookup_session, hwatch, Option.map_some]
  have hdone := Session.isDone_poll hwaiter
  rwa [hpoll] at hdone

theorem place_of_isDone (hstep : meeting.advance notify key = (after, answer))
    (hdone : answer.isDone = true) :
    ∃ watch, meeting.watches.lookup key = some watch ∧ watch.place = .released := by
  cases advances_of_eq hstep with
  | unknown | goesOn | pending => exact nomatch hdone
  | ended hwatch hadvance => exact ⟨_, hwatch, Watch.place_of_ended hadvance⟩

theorem IsSound.busy_or_owed_of_pending (hsound : meeting.IsSound notify)
    (hstep : meeting.advance notify key = (after, .pending)) :
    meeting.outstanding ≠ 0 ∨ meeting.shared.owed ≠ 0 := by
  cases advances_of_eq hstep with
  | pending hwatch hadvance =>
      exact Watch.busy_or_owed_of_pending (hsound.wakeable _ (mem_of_lookup hwatch)) hadvance
  | ended _ _ hdone => exact nomatch hdone

theorem IsWakeful.of_isLawful (hlawful : notify.IsLawful) (moves : List Move) :
    IsWakeful notify moves := by
  have hsound : (start.after notify moves).IsSound notify := isSound_start.after hlawful moves
  constructor
  · have hcounted := outstanding_after notify start moves
    simpa [outstanding, start, Shared.start, empty] using hcounted
  · exact step_decrement_of_outstanding
  · intro hzero howed entry hentry ticket hplace
    exact hsound.isMarked hzero howed hentry hplace
  · intro key watch hwatch hplace howed
    exact hsound.polls hlawful hwatch hplace howed
  · intro key hdone
    obtain ⟨watch, hwatch, hplace⟩ := place_of_isDone rfl hdone
    exact hasReadZero_of_released notify moves hwatch hplace
  · intro key hpending
    exact hsound.busy_or_owed_of_pending (Prod.ext rfl hpending)

-- No wake-up is lost, in whatever order the threads come. Where operations run one after the other
-- they do what a session does, whose polls are done exactly if there is no task.
theorem isWakeful_of_isLawful (hlawful : notify.IsLawful) :
    (∀ moves, IsWakeful notify moves) ∧
      (∀ steps answers log,
        PerformsAll notify start steps answers log ↔ Session.start.run steps = (answers, log)) ∧
      ∀ (session : Session) key waiter, session.waiters.lookup key = some waiter →
        ((session.poll key).2.isDone = true ↔ session.group.outstanding = 0) := by
  refine ⟨IsWakeful.of_isLawful hlawful, ?_, ?_⟩
  · intro steps answers log
    exact isQuiet_start.performsAll_iff hlawful
  · intro session key waiter hwaiter
    exact Session.isDone_poll hwaiter

-- The count goes to zero and rises again while somebody waits: the poll that follows goes on
-- waiting, and the one after the last decrement is done.
theorem isWakeful_riseAgain :
    Notify.broadcast.IsLawful ∧
      IsWakeful .broadcast
        [.increment, .start "w" .result, .advance "w", .advance "w", .advance "w", .decrement,
          .notify, .increment] ∧
      PerformsAll .broadcast start
        [.increment, .await "w" .result, .decrement, .increment, .poll "w", .decrement, .poll "w"]
        [(.nothing, ⟨1, none⟩), (.pending, ⟨1, none⟩), (.nothing, ⟨0, none⟩),
          (.nothing, ⟨1, none⟩), (.pending, ⟨1, none⟩), (.nothing, ⟨0, none⟩),
          (.finished (.ok ()), ⟨0, none⟩)] [] := by
  have hlawful := Notify.isLawful_broadcast
  obtain ⟨hwakeful, hperforms, _⟩ := isWakeful_of_isLawful hlawful
  exact ⟨hlawful, hwakeful _, (hperforms _ _ _).mpr (by rfl)⟩

end Meeting

end IndexFleet.SyncGroup
