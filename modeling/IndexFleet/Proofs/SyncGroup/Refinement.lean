import IndexFleet.Proofs.SyncGroup.Polling

namespace IndexFleet.SyncGroup.Meeting

variable {notify : Notify} {before after : Meeting} {answer : Answer}

-- A step of a session as the moves that it is made of, with nothing between them.
inductive Performs (notify : Notify) :
    Meeting → Step → Meeting → Answer → Log → Prop
  | increment {before after : Meeting} {answer : Answer} {log : Log}
      (hstep : before.step notify .increment = (after, answer, log)) :
      Performs notify before .increment after answer log
  | decrement {before between after : Meeting} {answer : Answer} {log : Log}
      (hstep : before.step notify .decrement = (between, answer, log))
      (hcall : between.step notify .notify = (after, .nothing, [])) :
      Performs notify before .decrement after answer log
  | record {before after : Meeting} {failure : Failure} {answer : Answer} {log : Log}
      (hstep : before.step notify (.record failure) = (after, answer, log)) :
      Performs notify before (.record failure) after answer log
  | take {before after : Meeting} {answer : Answer} {log : Log}
      (hstep : before.step notify .take = (after, answer, log)) :
      Performs notify before .take after answer log
  | await {before between after : Meeting} {key : String} {waiter : Waiter} {answer : Answer}
      (hstep : before.step notify (.start key waiter) = (between, .nothing, []))
      (hpolls : Polls notify key between after answer) :
      Performs notify before (.await key waiter) after answer []
  | poll {before after : Meeting} {key : String} {answer : Answer}
      (hpolls : Polls notify key before after answer) :
      Performs notify before (.poll key) after answer []

inductive PerformsAll (notify : Notify) :
    Meeting → List Step → List (Answer × SyncGroup) → Log → Prop
  | nil {meeting : Meeting} : PerformsAll notify meeting [] [] []
  | cons {before after : Meeting} {first : Step} {rest : List Step}
      {answer : Answer} {answers : List (Answer × SyncGroup)} {log more : Log}
      (hfirst : Performs notify before first after answer log)
      (hrest : PerformsAll notify after rest answers more) :
      PerformsAll notify before (first :: rest) ((answer, after.shared.group) :: answers)
        (log ++ more)

variable {step : Step} {steps : List Step} {log : Log}

theorem Performs.unique {other : Meeting} {another : Answer} {more : Log}
    (h : Performs notify before step after answer log)
    (hother : Performs notify before step other another more) :
    after = other ∧ answer = another ∧ log = more := by
  cases h with
  | increment hstep | record hstep | take hstep =>
      cases hother with
      | _ hstep' => simpa using hstep.symm.trans hstep'
  | decrement hstep hcall =>
      cases hother with
      | decrement hstep' hcall' =>
          obtain ⟨rfl, rfl, rfl⟩ : _ ∧ _ ∧ _ := by simpa using hstep.symm.trans hstep'
          obtain ⟨rfl, _⟩ := Prod.mk.inj (hcall.symm.trans hcall')
          exact ⟨rfl, rfl, rfl⟩
  | await hstep hpolls =>
      cases hother with
      | await hstep' hpolls' =>
          obtain ⟨rfl, _⟩ := Prod.mk.inj (hstep.symm.trans hstep')
          obtain ⟨rfl, rfl⟩ := hpolls.unique hpolls'
          exact ⟨rfl, rfl, rfl⟩
  | poll hpolls =>
      cases hother with
      | poll hpolls' =>
          obtain ⟨rfl, rfl⟩ := hpolls.unique hpolls'
          exact ⟨rfl, rfl, rfl⟩

theorem IsQuiet.increment (hlawful : notify.IsLawful) (hquiet : before.IsQuiet notify) :
    (before.step notify .increment).1.IsQuiet notify where
  sound := hquiet.sound.step hlawful .increment
  owed := hquiet.owed
  idle := hquiet.idle

theorem IsQuiet.withGroup (hquiet : before.IsQuiet notify) {group : SyncGroup}
    (hgroup : group.outstanding = before.shared.group.outstanding) :
    (before.withGroup group).IsQuiet notify where
  sound := hquiet.sound.keep (Shared.keepsTickets_of_outstanding hquiet.sound.numbered hgroup)
  owed := hquiet.owed
  idle := hquiet.idle

theorem IsQuiet.decrement (hlawful : notify.IsLawful) (hquiet : before.IsQuiet notify) :
    ((before.step notify .decrement).1.step notify .notify).1.IsQuiet notify where
  sound := (hquiet.sound.step hlawful .decrement).step hlawful .notify
  owed := by
    have howed := hquiet.owed
    by_cases hlast : before.shared.group.outstanding = 1 <;>
      simp [step, Shared.decrement, Shared.notifyWaiters, hlast, howed]
  idle := hquiet.idle

theorem session_decrement (notify : Notify) (meeting : Meeting) :
    ((meeting.step notify .decrement).1.step notify .notify).1.session =
      { meeting.session with group := meeting.shared.group.decrement.1 } := by
  simp [step, session, Shared.decrement]

theorem session_start (meeting : Meeting) (key : String) (waiter : Waiter) :
    (meeting.step notify (.start key waiter)).1.session =
      { meeting.session.forget key with
        waiters := (key, waiter) :: (meeting.session.forget key).waiters } := by
  rw [← session_forget]
  rfl

-- What a step of a session does is what its moves do, and nothing is left open by them.
theorem IsQuiet.exists_performs (hlawful : notify.IsLawful) (hquiet : before.IsQuiet notify)
    (step : Step) :
    ∃ after answer log, Performs notify before step after answer log ∧
      before.session.step step = (after.session, answer, log) ∧ after.IsQuiet notify := by
  cases step with
  | increment => exact ⟨_, _, _, .increment rfl, rfl, hquiet.increment hlawful⟩
  | decrement =>
      have hsession := session_decrement notify before
      have hstep : before.session.step .decrement =
          (((before.step notify .decrement).1.step notify .notify).1.session, .nothing,
            before.shared.group.decrement.2) := by rw [hsession]; rfl
      exact ⟨_, _, _, .decrement rfl rfl, hstep, hquiet.decrement hlawful⟩
  | record failure =>
      exact ⟨_, _, _, .record rfl, rfl, hquiet.withGroup (outstanding_record _ failure)⟩
  | take => exact ⟨_, _, _, .take rfl, rfl, hquiet.withGroup rfl⟩
  | await key waiter =>
      have hsound := hquiet.sound.step hlawful (.start key waiter)
      have hwatch := lookup_start notify before key waiter
      obtain ⟨after, answer, hpolls, hpoll⟩ := hsound.pollsAs hlawful hwatch (by simp) (by simp)
      refine ⟨after, answer, [], .await rfl hpolls, ?_,
        hpolls.isQuiet hlawful hsound hquiet.owed ?_⟩
      · rw [session_start] at hpoll
        simp only [Session.step, hpoll]
      · intro other watch hother hlookup
        rw [lookup_step_of_other (by simpa [Move.key?] using Ne.symm hother)] at hlookup
        exact hquiet.idle other watch hlookup
  | poll key =>
      have hidle other watch (_ : other ≠ key) := hquiet.idle other watch
      cases hwatch : before.watches.lookup key with
      | none =>
          have hstep : before.advance notify key = (before, .unknown) := by
            simp only [advance, hwatch]
          have hpoll : before.session.poll key = (before.session, .unknown) := by
            simp only [Session.poll, lookup_session, hwatch, Option.map_none]
          refine ⟨before, .unknown, [], .poll (.ends hstep (by simp)), ?_, hquiet⟩
          simp only [Session.step, hpoll]
      | some watch =>
          have hplace := hquiet.idle key watch hwatch
          obtain ⟨after, answer, hpolls, hpoll⟩ :=
            hquiet.sound.pollsAs hlawful hwatch hplace fun _ _ => hquiet.owed
          refine ⟨after, answer, [], .poll hpolls, ?_,
            hpolls.isQuiet hlawful hquiet.sound hquiet.owed hidle⟩
          simp only [Session.step, hpoll]

-- Both directions: every step ends, and ends as in the session.
theorem IsQuiet.performsAll_iff (hlawful : notify.IsLawful) (hquiet : before.IsQuiet notify)
    {answers : List (Answer × SyncGroup)} :
    PerformsAll notify before steps answers log ↔ before.session.run steps = (answers, log) := by
  induction steps generalizing before answers log with
  | nil =>
      constructor
      · intro hperforms
        cases hperforms
        rfl
      · intro hrun
        obtain ⟨rfl, rfl⟩ := Prod.mk.inj hrun
        exact .nil
  | cons first rest ih =>
      obtain ⟨after, answer, told, hfirst, hstep, hafter⟩ := hquiet.exists_performs hlawful first
      simp only [Session.run, hstep]
      constructor
      · intro hperforms
        cases hperforms with
        | cons hfirst' hrest =>
            obtain ⟨rfl, rfl, rfl⟩ := hfirst.unique hfirst'
            rw [(ih hafter).mp hrest]
            rfl
      · intro hrun
        obtain ⟨rfl, rfl⟩ := Prod.mk.inj hrun
        exact .cons hfirst ((ih hafter).mpr rfl)

end IndexFleet.SyncGroup.Meeting
