import IndexFleet.Proofs.SyncGroup.Meeting

namespace IndexFleet.SyncGroup

namespace Meeting

variable {notify : Notify} {meeting before between after : Meeting} {key : String} {watch : Watch}
  {answer : Answer}

-- A poll that nothing comes between.
inductive Polls (notify : Notify) (key : String) : Meeting → Meeting → Answer → Prop
  | ends {before after : Meeting} {answer : Answer}
      (hstep : before.advance notify key = (after, answer)) (hanswer : answer ≠ .nothing) :
      Polls notify key before after answer
  | goesOn {before between after : Meeting} {answer : Answer}
      (hstep : before.advance notify key = (between, .nothing))
      (hrest : Polls notify key between after answer) : Polls notify key before after answer

theorem Polls.unique {other : Meeting} {another : Answer} (h : Polls notify key before after answer)
    (hother : Polls notify key before other another) : after = other ∧ answer = another := by
  induction h with
  | ends hstep hanswer =>
      cases hother with
      | ends hstep' _ => exact Prod.mk.inj (hstep.symm.trans hstep')
      | goesOn hstep' _ => exact absurd (Prod.mk.inj (hstep.symm.trans hstep')).2 hanswer
  | goesOn hstep _ ih =>
      cases hother with
      | ends hstep' hanswer' =>
          exact absurd (Prod.mk.inj (hstep.symm.trans hstep')).2.symm hanswer'
      | goesOn hstep' hrest' =>
          obtain ⟨rfl, _⟩ := Prod.mk.inj (hstep.symm.trans hstep')
          exact ih hrest'

-- A meeting as its session has it: how far the waiters have come is not to be seen.
def session (meeting : Meeting) : Session :=
  ⟨meeting.shared.group, meeting.watches.map fun entry => (entry.1, entry.2.waiter)⟩

theorem lookup_session (meeting : Meeting) (key : String) :
    meeting.session.waiters.lookup key = (meeting.watches.lookup key).map Watch.waiter := by
  obtain ⟨shared, watches⟩ := meeting
  simp only [session]
  induction watches with
  | nil => rfl
  | cons entry watches ih =>
      obtain ⟨name, watch⟩ := entry
      simp only [List.map_cons, List.lookup_cons]
      cases key == name with
      | true => rfl
      | false => exact ih

theorem session_forget (meeting : Meeting) (key : String) :
    (meeting.forget key).session = meeting.session.forget key := by
  simp [session, forget, Session.forget, List.filter_map, Function.comp_def]

theorem session_moved {shared : Shared} {place : Place}
    (hgroup : shared.group = meeting.shared.group) :
    session ⟨shared, moved meeting.watches key place⟩ = meeting.session := by
  have hwaiter (entry : String × Watch) :
      (if entry.1 = key then { entry.2 with place } else entry.2).waiter = entry.2.waiter := by
    split <;> rfl
  simp [session, moved, hgroup, hwaiter, Function.comp_def]

theorem poll_session (hwatch : meeting.watches.lookup key = some watch) :
    meeting.session.poll key =
      if meeting.shared.group.isDrained then
        match watch.waiter with
        | .drained => (meeting.session.forget key, .ready)
        | .result =>
            let (group, result) := meeting.shared.group.result
            ({ meeting.session.forget key with group }, .finished result)
      else (meeting.session, .pending) := by
  simp only [Session.poll, lookup_session, hwatch, Option.map_some]
  rfl

-- A poll that nothing comes between ends as that of the session.
def PollsAs (notify : Notify) (meeting : Meeting) (key : String) : Prop :=
  ∃ after answer, Polls notify key meeting after answer ∧
    meeting.session.poll key = (after.session, answer)

variable {waiter : Waiter} {place next : Place} {shared : Shared} {ticket : Nat}

theorem pollsAs_of_goesOn (hwatch : meeting.watches.lookup key = some ⟨waiter, place⟩)
    (hstep : Watch.advance notify meeting.shared ⟨waiter, place⟩ = (shared, .goesOn next))
    (hrest : (moved meeting.watches key next).lookup key = some ⟨waiter, next⟩ →
      PollsAs notify ⟨shared, moved meeting.watches key next⟩ key) :
    PollsAs notify meeting key := by
  have hnext : (moved meeting.watches key next).lookup key = some ⟨waiter, next⟩ := by
    simp [lookup_moved, hwatch]
  have hsession : session ⟨shared, moved meeting.watches key next⟩ = meeting.session :=
    session_moved (Watch.group_of_goesOn hstep)
  obtain ⟨after, answer, hpolls, hpoll⟩ := hrest hnext
  rw [hsession] at hpoll
  exact ⟨after, answer, .goesOn (by simp only [advance, hwatch, hstep]) hpolls, hpoll⟩

theorem pollsAs_of_released (hwatch : meeting.watches.lookup key = some ⟨waiter, .released⟩)
    (hdrained : meeting.shared.group.isDrained = true) : PollsAs notify meeting key := by
  have hpoll := poll_session hwatch
  rw [if_pos hdrained] at hpoll
  cases waiter with
  | drained =>
      have hstep : meeting.advance notify key = (meeting.forget key, .ready) := by
        simp only [advance, hwatch, Watch.advance]
      refine ⟨_, _, .ends hstep (by simp), ?_⟩
      rw [hpoll, session_forget]
  | result =>
      have hstep : meeting.advance notify key =
          ((meeting.withGroup meeting.shared.group.result.1).forget key,
            .finished meeting.shared.group.result.2) := by
        simp only [advance, hwatch, Watch.advance, withGroup]
      refine ⟨_, _, .ends hstep (by simp), ?_⟩
      rw [hpoll, session_forget]
      rfl

theorem pollsAs_of_unmarked (hwatch : meeting.watches.lookup key = some ⟨waiter, .waiting ticket⟩)
    (hbusy : ¬meeting.shared.group.isDrained = true)
    (hunmarked : notify.isMarked meeting.shared.calls ticket = false) :
    PollsAs notify meeting key := by
  have hpoll := poll_session hwatch
  rw [if_neg hbusy] at hpoll
  have hstep : meeting.advance notify key = (meeting, .pending) := by
    simp [advance, hwatch, Watch.advance, hunmarked]
  exact ⟨_, _, .ends hstep (by simp), hpoll⟩

-- The ticket matters only if there is something to wait for.
theorem pollsAs_of_registered
    (hwatch : meeting.watches.lookup key = some ⟨waiter, .registered ticket⟩)
    (hwaiting : ∀ watches, ¬meeting.shared.group.isDrained = true →
      watches.lookup key = some ⟨waiter, .waiting ticket⟩ →
        PollsAs notify ⟨meeting.shared, watches⟩ key) :
    PollsAs notify meeting key := by
  by_cases hdrained : meeting.shared.group.isDrained = true
  · have hstep : Watch.advance notify meeting.shared ⟨waiter, .registered ticket⟩ =
        (meeting.shared, .goesOn .released) := by simp [Watch.advance, hdrained]
    apply pollsAs_of_goesOn hwatch hstep
    intro hreleased
    exact pollsAs_of_released hreleased hdrained
  · have hstep : Watch.advance notify meeting.shared ⟨waiter, .registered ticket⟩ =
        (meeting.shared, .goesOn (.waiting ticket)) := by simp [Watch.advance, hdrained]
    exact pollsAs_of_goesOn hwatch hstep (hwaiting _ hdrained)

theorem pollsAs_of_outside (hlawful : notify.IsLawful) (hnumbered : meeting.shared.IsNumbered)
    (hwatch : meeting.watches.lookup key = some ⟨waiter, .outside⟩) :
    PollsAs notify meeting key := by
  have hfresh : notify.isMarked meeting.shared.register.calls meeting.shared.calls.length = false :=
    hlawful.fresh _ _ (Shared.not_mem_register hnumbered)
  apply pollsAs_of_goesOn hwatch rfl
  intro hregistered
  apply pollsAs_of_registered hregistered
  intro watches hbusy hwaiting
  exact pollsAs_of_unmarked hwaiting hbusy hfresh

theorem pollsAs_of_waiting (hlawful : notify.IsLawful) (hnumbered : meeting.shared.IsNumbered)
    (hpending : notify.isMarked meeting.shared.calls ticket = true ∨
      meeting.shared.group.outstanding ≠ 0)
    (hwatch : meeting.watches.lookup key = some ⟨waiter, .waiting ticket⟩) :
    PollsAs notify meeting key := by
  by_cases hmarked : notify.isMarked meeting.shared.calls ticket = true
  · have hstep : Watch.advance notify meeting.shared ⟨waiter, .waiting ticket⟩ =
        (meeting.shared, .goesOn .outside) := by simp [Watch.advance, hmarked]
    apply pollsAs_of_goesOn hwatch hstep
    intro houtside
    exact pollsAs_of_outside hlawful hnumbered houtside
  · apply pollsAs_of_unmarked hwatch
    · have hbusy := hpending.resolve_left hmarked
      exact mt isDrained_iff.mp hbusy
    · exact Bool.eq_false_iff.mpr hmarked

-- A call that is owed matters to nobody but those who wait for it.
theorem IsSound.pollsAs (hlawful : notify.IsLawful) (hsound : meeting.IsSound notify)
    (hwatch : meeting.watches.lookup key = some watch) (hplace : watch.place ≠ .released)
    (howed : ∀ ticket, watch.place = .waiting ticket → meeting.shared.owed = 0) :
    PollsAs notify meeting key := by
  have hwakeable := hsound.wakeable _ (mem_of_lookup hwatch)
  obtain ⟨waiter, place⟩ := watch
  cases place with
  | outside => exact pollsAs_of_outside hlawful hsound.numbered hwatch
  | registered ticket =>
      apply pollsAs_of_registered hwatch
      intro watches hbusy hwaiting
      have hpending := mt isDrained_iff.mpr hbusy
      exact pollsAs_of_waiting hlawful hsound.numbered (.inr hpending) hwaiting
  | waiting ticket =>
      have hpending := hwakeable.2.imp_right fun h =>
        h.resolve_right (not_not_intro (howed ticket rfl))
      exact pollsAs_of_waiting hlawful hsound.numbered hpending hwatch
  | released => exact absurd rfl hplace

-- A meeting between the operations of a session: no call is owed, and no poll has been interrupted
-- after its read of zero.
structure IsQuiet (notify : Notify) (meeting : Meeting) : Prop where
  sound : meeting.IsSound notify
  owed : meeting.shared.owed = 0
  idle : ∀ key watch, meeting.watches.lookup key = some watch → watch.place ≠ .released

theorem isQuiet_start : start.IsQuiet notify where
  sound := isSound_start
  owed := rfl
  idle _ _ hwatch := nomatch hwatch

theorem owed_advance (hstep : before.advance notify key = (after, answer)) :
    after.shared.owed = before.shared.owed := by
  cases advances_of_eq hstep with
  | unknown => rfl
  | goesOn _ hadvance | pending _ hadvance | ended _ hadvance => exact Watch.owed_advance hadvance

theorem ne_released_of_advance (hstep : before.advance notify key = (after, answer))
    (hanswer : answer ≠ .nothing) (hwatch : after.watches.lookup key = some watch) :
    watch.place ≠ .released := by
  cases advances_of_eq hstep with
  | unknown hnone => exact nomatch hnone.symm.trans hwatch
  | goesOn => exact absurd rfl hanswer
  | pending hbefore hadvance =>
      obtain rfl := Option.some.inj (hbefore.symm.trans hwatch)
      exact Watch.ne_released_of_pending hadvance
  | ended => simp [forget, lookup_forget] at hwatch

theorem Polls.sound (hlawful : notify.IsLawful) (h : Polls notify key before after answer)
    (hsound : before.IsSound notify) : after.IsSound notify := by
  induction h with
  | ends hstep _ => exact hsound.advance hlawful hstep
  | goesOn hstep _ ih => exact ih (hsound.advance hlawful hstep)

theorem Polls.owed (h : Polls notify key before after answer) :
    after.shared.owed = before.shared.owed := by
  induction h with
  | ends hstep _ => exact owed_advance hstep
  | goesOn hstep _ ih => exact ih.trans (owed_advance hstep)

theorem Polls.idle (h : Polls notify key before after answer)
    (hidle : ∀ other watch, other ≠ key → before.watches.lookup other = some watch →
      watch.place ≠ .released) (other : String) (watch : Watch)
    (hwatch : after.watches.lookup other = some watch) : watch.place ≠ .released := by
  induction h with
  | ends hstep hanswer =>
      by_cases hother : other = key
      · subst hother
        exact ne_released_of_advance hstep hanswer hwatch
      · apply hidle other watch hother
        rw [← hwatch, lookup_advance_of_ne hstep hother]
  | goesOn hstep _ ih =>
      apply ih _ hwatch
      intro other watch hother hbetween
      apply hidle other watch hother
      rw [← hbetween, lookup_advance_of_ne hstep hother]

theorem Polls.isQuiet (hlawful : notify.IsLawful) (h : Polls notify key before after answer)
    (hsound : before.IsSound notify) (howed : before.shared.owed = 0)
    (hidle : ∀ other watch, other ≠ key → before.watches.lookup other = some watch →
      watch.place ≠ .released) : after.IsQuiet notify where
  sound := h.sound hlawful hsound
  owed := h.owed.trans howed
  idle := h.idle hidle

end Meeting

end IndexFleet.SyncGroup
