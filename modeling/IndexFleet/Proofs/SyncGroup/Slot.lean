import IndexFleet.Proofs.SyncGroup.Wakeup
import Mathlib.Data.List.DropRight

namespace IndexFleet.SyncGroup

-- The failure that leaves the slot with an answer.
def Answer.handedOut : Answer → Option Failure
  | .taken failure => failure
  | .finished (.error failure) => some failure
  | _ => none

-- What is seen of a step from outside: the failure that it offers, if any, and its answer.
structure Deed where
  offered : Option Failure
  answer : Answer

namespace Deed

def handedOut (deed : Deed) : Option Failure := deed.answer.handedOut

-- The failure that it is told to be the first one.
def kept (deed : Deed) : Option Failure :=
  match deed.answer with
  | .recorded true => deed.offered
  | _ => none

def sinceHandOut (deeds : List Deed) : List Deed :=
  deeds.rtakeWhile fun deed => deed.handedOut.isNone

def firstOffered (deeds : List Deed) : Option Failure := (sinceHandOut deeds).findSome? offered

-- What a deed does to the slot.
inductive Takes : Option Failure → Deed → Option Failure → Prop
  | kept (failure : Failure) : Takes none ⟨some failure, .recorded true⟩ (some failure)
  | discarded (first failure : Failure) :
      Takes (some first) ⟨some failure, .recorded false⟩ (some first)
  | handedOut (failure : Failure) (answer : Answer) (hanswer : answer.handedOut = some failure) :
      Takes (some failure) ⟨none, answer⟩ none
  | untouched {slot : Option Failure} (answer : Answer) (hanswer : answer.handedOut = none)
      (hok : answer = .finished (.ok ()) → slot = none) : Takes slot ⟨none, answer⟩ slot

def TakesAll (slot : Option Failure) (deeds : List Deed) (after : Option Failure) : Prop :=
  match deeds with
  | [] => slot = after
  | deed :: rest => ∃ between, Takes slot deed between ∧ TakesAll between rest after

variable {slot after : Option Failure} {deed : Deed} {deeds more : List Deed}

theorem takesAll_append :
    TakesAll slot (deeds ++ more) after ↔
      ∃ between, TakesAll slot deeds between ∧ TakesAll between more after := by
  induction deeds generalizing slot with
  | nil => simp [TakesAll]
  | cons deed deeds ih =>
      simp only [List.cons_append, TakesAll, ih]
      constructor
      · rintro ⟨first, htakes, between, hdeeds, hmore⟩
        exact ⟨between, ⟨first, htakes, hdeeds⟩, hmore⟩
      · rintro ⟨between, ⟨first, htakes, hdeeds⟩, hmore⟩
        exact ⟨first, htakes, between, hdeeds, hmore⟩

theorem takesAll_concat :
    TakesAll slot (deeds ++ [deed]) after ↔
      ∃ between, TakesAll slot deeds between ∧ Takes between deed after := by
  simp [takesAll_append, TakesAll]

theorem Takes.slot_eq (htakes : Takes slot deed after) :
    after = if deed.handedOut.isNone then slot.or deed.offered else none := by
  cases htakes with
  | kept failure => rfl
  | discarded first failure => rfl
  | handedOut failure answer hanswer => simp [Deed.handedOut, hanswer]
  | untouched answer hanswer hok => simp [Deed.handedOut, hanswer]

theorem firstOffered_concat (deeds : List Deed) (deed : Deed) :
    firstOffered (deeds ++ [deed]) =
      if deed.handedOut.isNone then (firstOffered deeds).or deed.offered else none := by
  simp only [firstOffered, sinceHandOut, List.rtakeWhile_concat]
  split
  case isTrue => simp [List.findSome?_append, List.findSome?_singleton]
  case isFalse => rfl

-- The first failure that was offered since the last one was handed out has the slot.
theorem TakesAll.slot_eq (htakes : TakesAll none deeds slot) : slot = firstOffered deeds := by
  induction deeds using List.reverseRecOn generalizing slot with
  | nil => exact htakes.symm
  | append_singleton deeds deed ih =>
      obtain ⟨between, hdeeds, hdeed⟩ := takesAll_concat.mp htakes
      rw [hdeed.slot_eq, ih hdeeds, firstOffered_concat]

theorem kept_of_none (answer : Answer) : kept ⟨none, answer⟩ = none := by
  unfold kept
  split <;> rfl

-- Whatever is kept is handed out, or still there, and nothing else is.
theorem Takes.balanced (htakes : Takes slot deed after) :
    slot.toList ++ deed.kept.toList = deed.handedOut.toList ++ after.toList := by
  cases htakes with
  | kept failure => rfl
  | discarded first failure => rfl
  | handedOut failure answer hanswer => simp [kept_of_none, Deed.handedOut, hanswer]
  | untouched answer hanswer hok => simp [kept_of_none, Deed.handedOut, hanswer]

theorem TakesAll.balanced (htakes : TakesAll slot deeds after) :
    slot.toList ++ deeds.filterMap kept = deeds.filterMap handedOut ++ after.toList := by
  have hfilter (f : Deed → Option Failure) (deed : Deed) (deeds : List Deed) :
      (deed :: deeds).filterMap f = (f deed).toList ++ deeds.filterMap f := by
    cases hdeed : f deed <;> simp [hdeed]
  induction deeds generalizing slot with
  | nil => simp [show slot = after from htakes]
  | cons deed deeds ih =>
      obtain ⟨between, hdeed, hdeeds⟩ := htakes
      calc
        slot.toList ++ (deed :: deeds).filterMap kept
          = slot.toList ++ deed.kept.toList ++ deeds.filterMap kept := by simp [hfilter]
        _ = deed.handedOut.toList ++ (between.toList ++ deeds.filterMap kept) := by
            rw [hdeed.balanced, List.append_assoc]
        _ = (deed :: deeds).filterMap handedOut ++ after.toList := by simp [hfilter, ih hdeeds]

-- The history of a group, and how it is left.
structure Accounts (deeds : List Deed) (group : SyncGroup) : Prop where
  slot : group.failure = firstOffered deeds
  hasFailed : group.hasFailed = true ↔ ∃ deed ∈ sinceHandOut deeds, deed.offered ≠ none
  -- in the order in which they came
  balanced : deeds.filterMap kept = deeds.filterMap handedOut ++ group.failure.toList
  records : ∀ past failure answer rest, deeds = past ++ ⟨some failure, answer⟩ :: rest →
    ∃ first, answer = .recorded first ∧
      (first = true ↔ ∀ deed ∈ sinceHandOut past, deed.offered = none)
  -- the first failure wins
  handsOut : ∀ past deed rest failure, deeds = past ++ deed :: rest →
    deed.handedOut = some failure → firstOffered past = some failure
  drains : ∀ past deed rest result, deeds = past ++ deed :: rest →
    deed.answer = .finished result → (result = .ok () ↔ firstOffered past = none)
  -- whoever comes after a hand-out gets nothing, unless another failure has come in between
  once : ∀ past first between second rest,
    deeds = past ++ first :: (between ++ second :: rest) →
    first.handedOut ≠ none → second.handedOut ≠ none → ∃ deed ∈ between, deed.kept ≠ none

theorem firstOffered_eq_none :
    firstOffered deeds = none ↔ ∀ deed ∈ sinceHandOut deeds, deed.offered = none :=
  List.findSome?_eq_none_iff

-- Every deed finds in the slot what the ones before it have left.
theorem TakesAll.exists_takes (htakes : TakesAll none (deeds ++ deed :: more) slot) :
    ∃ after, Takes (firstOffered deeds) deed after ∧ TakesAll after more slot := by
  obtain ⟨between, hdeeds, after, hdeed, hmore⟩ := takesAll_append.mp htakes
  rw [← hdeeds.slot_eq]
  exact ⟨after, hdeed, hmore⟩

theorem Takes.after_of_handedOut (htakes : Takes slot deed after) {failure : Failure}
    (hanswer : deed.handedOut = some failure) : slot = some failure ∧ after = none := by
  cases htakes with
  | kept | discarded => exact nomatch hanswer
  | handedOut failure answer hfailure => exact ⟨hfailure.symm.trans hanswer, rfl⟩
  | untouched answer hnone => exact nomatch hnone.symm.trans hanswer

theorem Takes.exists_recorded {failure : Failure} {answer : Answer}
    (htakes : Takes slot ⟨some failure, answer⟩ after) :
    ∃ first, answer = .recorded first ∧ (first = true ↔ slot = none) := by
  cases htakes with
  | kept => exact ⟨true, rfl, by simp⟩
  | discarded first => exact ⟨false, rfl, by simp⟩

theorem Takes.finished_iff {result : Except Failure Unit} (htakes : Takes slot deed after)
    (hresult : deed.answer = .finished result) : result = .ok () ↔ slot = none := by
  cases htakes with
  | kept | discarded => exact nomatch hresult
  | handedOut failure answer hanswer =>
      obtain rfl : answer = .finished result := hresult
      cases result with
      | ok => exact nomatch hanswer
      | error => simp
  | untouched answer hanswer hok =>
      obtain rfl : answer = .finished result := hresult
      cases result with
      | ok => simp [hok]
      | error => exact nomatch hanswer

theorem TakesAll.exists_kept {failure : Failure} (htakes : TakesAll none deeds (some failure)) :
    ∃ deed ∈ deeds, deed.kept ≠ none := by
  by_contra hnone
  have hkept : deeds.filterMap kept = [] := by
    rw [List.filterMap_eq_nil_iff]
    intro deed hdeed
    by_contra hsome
    exact hnone ⟨deed, hdeed, hsome⟩
  have hbalanced := htakes.balanced
  simp [hkept] at hbalanced

theorem TakesAll.accounts {group : SyncGroup} (htakes : TakesAll none deeds group.failure) :
    Accounts deeds group where
  slot := htakes.slot_eq
  hasFailed := by
    have hslot : group.failure = none ↔ _ := htakes.slot_eq ▸ firstOffered_eq_none
    rw [hasFailed, Option.isSome_iff_ne_none, ne_eq, hslot]
    simp
  balanced := by simpa using htakes.balanced
  records past failure answer rest hdeeds := by
    rw [hdeeds] at htakes
    obtain ⟨after, hdeed, _⟩ := htakes.exists_takes
    simpa only [firstOffered_eq_none] using hdeed.exists_recorded
  handsOut past deed rest failure hdeeds hanswer := by
    rw [hdeeds] at htakes
    obtain ⟨after, hdeed, _⟩ := htakes.exists_takes
    exact (hdeed.after_of_handedOut hanswer).1
  drains past deed rest result hdeeds hresult := by
    rw [hdeeds] at htakes
    obtain ⟨after, hdeed, _⟩ := htakes.exists_takes
    exact hdeed.finished_iff hresult
  once past first between second rest hdeeds hfirst hsecond := by
    rw [hdeeds] at htakes
    obtain ⟨after, htake, hrest⟩ := htakes.exists_takes
    obtain ⟨failure, hfailure⟩ := Option.ne_none_iff_exists'.mp hfirst
    obtain ⟨_, rfl⟩ := htake.after_of_handedOut hfailure
    obtain ⟨slot, hbetween, _, htake', _⟩ := takesAll_append.mp hrest
    obtain ⟨another, hanother⟩ := Option.ne_none_iff_exists'.mp hsecond
    obtain ⟨rfl, _⟩ := htake'.after_of_handedOut hanother
    exact hbetween.exists_kept

end Deed

open Deed

variable {group : SyncGroup}

theorem takes_record (group : SyncGroup) (failure : Failure) :
    Takes group.failure ⟨some failure, .recorded (group.record failure).2⟩
      (group.record failure).1.failure := by
  obtain ⟨outstanding, slot⟩ := group
  cases slot with
  | none => exact .kept failure
  | some first => exact .discarded first failure

theorem takes_take (group : SyncGroup) :
    Takes group.failure ⟨none, .taken group.take.2⟩ group.take.1.failure := by
  obtain ⟨outstanding, slot⟩ := group
  cases slot with
  | none => exact .untouched _ rfl nofun
  | some failure => exact .handedOut failure _ rfl

theorem takes_result (group : SyncGroup) :
    Takes group.failure ⟨none, .finished group.result.2⟩ group.result.1.failure := by
  obtain ⟨outstanding, slot⟩ := group
  cases slot with
  | none => exact .untouched _ rfl fun _ => rfl
  | some failure => exact .handedOut failure _ rfl

theorem takes_nothing {group after : SyncGroup} {answer : Answer}
    (hfailure : after.failure = group.failure) (hanswer : answer.handedOut = none)
    (hok : answer ≠ .finished (.ok ())) : Takes group.failure ⟨none, answer⟩ after.failure := by
  rw [hfailure]
  exact .untouched _ hanswer fun h => absurd h hok

def Step.offered : Step → Option Failure
  | .record failure => some failure
  | _ => none

def Move.offered : Move → Option Failure
  | .record failure => some failure
  | _ => none

namespace Session

def deeds (session : Session) (steps : List Step) : List Deed :=
  (session.run steps).1.zipWith (fun answered step => ⟨step.offered, answered.1⟩) steps

def after (session : Session) (steps : List Step) : Session :=
  steps.foldl (fun session step => (session.step step).1) session

theorem takes_poll (session : Session) (key : String) :
    Takes session.group.failure ⟨none, (session.poll key).2⟩
      (session.poll key).1.group.failure := by
  unfold poll
  split
  case h_1 => exact takes_nothing rfl rfl nofun
  case h_2 waiter hwaiter =>
    split
    case isFalse => exact takes_nothing rfl rfl nofun
    case isTrue =>
      cases waiter with
      | drained => exact takes_nothing rfl rfl nofun
      | result => exact takes_result session.group

theorem takes_step (session : Session) (step : Step) :
    Takes session.group.failure ⟨step.offered, (session.step step).2.1⟩
      (session.step step).1.group.failure := by
  cases step with
  | increment => exact takes_nothing rfl rfl nofun
  | decrement => exact takes_nothing session.group.failure_decrement rfl nofun
  | record failure => exact takes_record session.group failure
  | take => exact takes_take session.group
  | await key waiter =>
      let rest := session.forget key
      exact takes_poll { rest with waiters := (key, waiter) :: rest.waiters } key
  | poll key => exact takes_poll session key

theorem takesAll_deeds (session : Session) (steps : List Step) :
    TakesAll session.group.failure (session.deeds steps) (session.after steps).group.failure := by
  induction steps generalizing session with
  | nil => rfl
  | cons step steps ih => exact ⟨_, session.takes_step step, ih (session.step step).1⟩

theorem outstanding_of_poll {session : Session} {key : String} {result : Except Failure Unit}
    (hresult : (session.poll key).2 = .finished result) :
    (session.poll key).1.group.outstanding = 0 := by
  unfold poll at hresult ⊢
  split at hresult
  case h_1 => exact nomatch hresult
  case h_2 waiter hwaiter =>
    split at hresult
    case isFalse => exact nomatch hresult
    case isTrue hdrained =>
      cases waiter with
      | drained => exact nomatch hresult
      | result =>
          have hzero := isDrained_iff.mp hdrained
          simp [hdrained, outstanding_result, hzero]

theorem outstanding_of_step {session : Session} {step : Step} {result : Except Failure Unit}
    (hresult : (session.step step).2.1 = .finished result) :
    (session.step step).1.group.outstanding = 0 := by
  cases step with
  | increment | decrement | record failure | take => exact nomatch hresult
  | await key waiter => exact outstanding_of_poll hresult
  | poll key => exact outstanding_of_poll hresult

theorem outstanding_of_finished {session : Session} {steps : List Step}
    {answered : Answer × SyncGroup} (hanswered : answered ∈ (session.run steps).1)
    {result : Except Failure Unit} (hresult : answered.1 = .finished result) :
    answered.2.outstanding = 0 := by
  induction steps generalizing session with
  | nil => exact nomatch hanswered
  | cons step steps ih =>
      rcases List.mem_cons.mp hanswered with rfl | hrest
      · exact outstanding_of_step hresult
      · exact ih hrest

-- What is kept and handed out in a session of operations, and when.
structure IsAccounted (steps : List Step) : Prop where
  accounts : Accounts (start.deeds steps) (start.after steps).group
  drained : ∀ answered ∈ (start.run steps).1, ∀ result, answered.1 = .finished result →
    answered.2.outstanding = 0

end Session

namespace Meeting

variable {notify : Notify}

def deeds (notify : Notify) (meeting : Meeting) : List Move → List Deed
  | [] => []
  | move :: rest =>
      ⟨move.offered, (meeting.step notify move).2.1⟩ ::
        deeds notify (meeting.step notify move).1 rest

theorem takes_advance {meeting after : Meeting} {key : String} {answer : Answer}
    (hstep : meeting.advance notify key = (after, answer)) :
    Takes meeting.shared.group.failure ⟨none, answer⟩ after.shared.group.failure := by
  cases advances_of_eq hstep with
  | unknown => exact takes_nothing rfl rfl nofun
  | goesOn _ hadvance =>
      exact takes_nothing (congrArg _ (Watch.group_of_goesOn hadvance)) rfl nofun
  | pending _ hadvance =>
      cases Watch.advances_of_eq hadvance with
      | sleep => exact takes_nothing rfl rfl nofun
  | ended _ hadvance =>
      cases Watch.advances_of_eq hadvance with
      | ready => exact takes_nothing rfl rfl nofun
      | finish => exact takes_result meeting.shared.group

theorem takes_step (notify : Notify) (meeting : Meeting) (move : Move) :
    Takes meeting.shared.group.failure ⟨move.offered, (meeting.step notify move).2.1⟩
      (meeting.step notify move).1.shared.group.failure := by
  cases move with
  | increment => exact takes_nothing rfl rfl nofun
  | decrement => exact takes_nothing meeting.shared.group.failure_decrement rfl nofun
  | notify => exact takes_nothing (congrArg _ meeting.shared.group_notifyWaiters) rfl nofun
  | record failure => exact takes_record meeting.shared.group failure
  | take => exact takes_take meeting.shared.group
  | start key waiter => exact takes_nothing rfl rfl nofun
  | advance key => exact takes_advance rfl

theorem takesAll_deeds (notify : Notify) (meeting : Meeting) (moves : List Move) :
    TakesAll meeting.shared.group.failure (meeting.deeds notify moves)
      (meeting.after notify moves).shared.group.failure := by
  induction moves generalizing meeting with
  | nil => rfl
  | cons move moves ih => exact ⟨_, takes_step notify meeting move, ih _⟩

-- What is kept and handed out whatever the threads do, and in whatever order.
structure IsAccounted (notify : Notify) (moves : List Move) : Prop where
  accounts : Accounts (start.deeds notify moves) (start.after notify moves).shared.group
  -- the poll of a drain that ends has read a count of zero
  drained : ∀ key result,
    ((start.after notify moves).step notify (.advance key)).2.1 = .finished result →
      HasReadZero notify moves key

end Meeting

-- No failure that is kept is lost or handed out twice, be it that operations come one after the
-- other, or that the threads come between each other's steps.
theorem isAccounted :
    (∀ steps, Session.IsAccounted steps) ∧ ∀ notify moves, Meeting.IsAccounted notify moves := by
  constructor
  · intro steps
    have htakes := Session.start.takesAll_deeds steps
    exact ⟨htakes.accounts, fun _ hanswered _ hresult =>
      Session.outstanding_of_finished hanswered hresult⟩
  · intro notify moves
    have htakes := Meeting.takesAll_deeds notify .start moves
    refine ⟨htakes.accounts, fun key result hresult => ?_⟩
    have hdone : ((Meeting.start.after notify moves).advance notify key).2.isDone = true :=
      congrArg Answer.isDone hresult
    obtain ⟨watch, hwatch, hplace⟩ := Meeting.place_of_isDone rfl hdone
    exact Meeting.hasReadZero_of_released notify moves hwatch hplace

-- Of two drains at the same count the first one to be polled gets the failure.
example :
    (Session.start.run [.increment, .record (.io "full"), .record (.io "late"),
      .await "a" .result, .await "b" .result, .decrement, .poll "b", .poll "a"]).1.map (·.1) =
      [.nothing, .recorded true, .recorded false, .pending, .pending, .nothing,
        .finished (.error (.io "full")), .finished (.ok ())] := by
  rfl

end IndexFleet.SyncGroup
