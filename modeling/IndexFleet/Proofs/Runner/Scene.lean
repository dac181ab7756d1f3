import IndexFleet.Proofs.Runner
import IndexFleet.Proofs.SyncGroup.Wakeup
import Mathlib.Logic.Relation

namespace IndexFleet.Runner

open SyncGroup (Place Shared Watch)

-- How far a task has come that was started.
inductive Standing
  | working
  -- its failure, if any, is recorded, and it still counts
  | recorded
  | finished
  deriving Repr, DecidableEq

structure Member where
  task : Task
  standing : Standing

def Member.isUnfinished (member : Member) : Bool := member.standing != .finished

def Member.hasTold (member : Member) : Bool := member.standing != .working

inductive Drain
  | unstarted
  | under (place : Place)
  | ended (result : Except Failure Unit)

-- A runner whose tasks run on their own, and the drain that waits for them.
structure Scene where
  -- the tasks that are still to be started
  waiting : List Task
  members : List Member
  shared : Shared
  drain : Drain
  -- the tasks whose work is over, in the order in which they told it
  order : List Task

-- A task records its failure first and is counted off then. If it was the last one that counted,
-- a call for those who wait comes after that.
inductive TaskStep : Scene → Scene → Prop
  | record {waiting order : List Task} {shared : Shared} {drain : Drain} {task : Task}
      (before : List Member) {behind : List Member} :
      TaskStep ⟨waiting, before ++ ⟨task, .working⟩ :: behind, shared, drain, order⟩
        ⟨waiting, before ++ ⟨task, .recorded⟩ :: behind,
          { shared with group := task.recordIn shared.group }, drain, order ++ [task]⟩
  | leave {waiting order : List Task} {shared : Shared} {drain : Drain} {task : Task}
      (before : List Member) {behind : List Member} :
      TaskStep ⟨waiting, before ++ ⟨task, .recorded⟩ :: behind, shared, drain, order⟩
        ⟨waiting, before ++ ⟨task, .finished⟩ :: behind, shared.decrement.1, drain, order⟩
  | notify {waiting order : List Task} {members : List Member} {shared : Shared} {drain : Drain}
      (howed : shared.owed ≠ 0) :
      TaskStep ⟨waiting, members, shared, drain, order⟩
        ⟨waiting, members, shared.notifyWaiters, drain, order⟩

inductive DrainStep (notify : Notify) : Scene → Scene → Prop
  | begin {members : List Member} {shared : Shared} {order : List Task} :
      DrainStep notify ⟨[], members, shared, .unstarted, order⟩
        ⟨[], members, shared, .under .outside, order⟩
  | goesOn {waiting order : List Task} {members : List Member} {shared after : Shared}
      {place next : Place}
      (hstep : Watch.advance notify shared ⟨.result, place⟩ = (after, .goesOn next)) :
      DrainStep notify ⟨waiting, members, shared, .under place, order⟩
        ⟨waiting, members, after, .under next, order⟩
  | finish {waiting order : List Task} {members : List Member} {shared after : Shared}
      {place : Place} {result : Except Failure Unit}
      (hstep : Watch.advance notify shared ⟨.result, place⟩ = (after, .ended (.finished result))) :
      DrainStep notify ⟨waiting, members, shared, .under place, order⟩
        ⟨waiting, members, after, .ended result, order⟩

-- Tasks take their steps while others are still to be started, and while the drain takes its own.
inductive Scene.Step (notify : Notify) : Scene → Scene → Prop
  | spawn {waiting order : List Task} {members : List Member} {shared : Shared} {task : Task} :
      Step notify ⟨task :: waiting, members, shared, .unstarted, order⟩
        ⟨waiting, members ++ [⟨task, .working⟩], shared.increment, .unstarted, order⟩
  | task {before after : Scene} (hstep : TaskStep before after) : Step notify before after
  | drain {before after : Scene} (hstep : DrainStep notify before after) : Step notify before after

namespace Scene

variable {notify : Notify} {tasks : List Task} {before after scene : Scene}

def start (tasks : List Task) : Scene := ⟨tasks, [], .start, .unstarted, []⟩

def Reachable (notify : Notify) (tasks : List Task) (scene : Scene) : Prop :=
  Relation.ReflTransGen (Step notify) (start tasks) scene

def unfinished (scene : Scene) : List Member := scene.members.filter (·.isUnfinished)

def told (scene : Scene) : List Task := (scene.members.filter (·.hasTold)).map (·.task)

def firstFailure (scene : Scene) : Option Failure := scene.order.findSome? (·.failure?)

-- The drain takes the first failure and nothing comes after that.
def Drains (notify : Notify) (scene : Scene) : Prop :=
  match scene.drain with
  | .unstarted => scene.shared.group.failure = scene.firstFailure
  | .under place => scene.waiting = [] ∧ scene.shared.group.failure = scene.firstFailure ∧
      place.IsWakeable notify scene.shared ∧
      (place = .released → scene.shared.group.outstanding = 0)
  | .ended result => scene.waiting = [] ∧ scene.shared.group = .empty ∧
      result = (SyncGroup.result ⟨0, scene.firstFailure⟩).2

structure IsOrderly (notify : Notify) (tasks : List Task) (scene : Scene) : Prop where
  tasks : scene.members.map (·.task) ++ scene.waiting = tasks
  counted : scene.shared.group.outstanding = scene.unfinished.length
  order : scene.order.Perm scene.told
  numbered : scene.shared.IsNumbered
  drains : scene.Drains notify

theorem isOrderly_start (notify : Notify) (tasks : List Task) :
    (start tasks).IsOrderly notify tasks where
  tasks := rfl
  counted := rfl
  order := .refl _
  numbered := Shared.isNumbered_start
  drains := rfl

end Scene

open Scene

variable {notify : Notify} {tasks : List Task} {before after scene : Scene}

theorem TaskStep.waiting_eq (h : TaskStep before after) : after.waiting = before.waiting := by
  cases h <;> rfl

theorem TaskStep.drain_eq (h : TaskStep before after) : after.drain = before.drain := by
  cases h <;> rfl

theorem TaskStep.tasks_eq (h : TaskStep before after) :
    after.members.map (·.task) = before.members.map (·.task) := by
  cases h <;> simp

theorem TaskStep.keepsTickets (hlawful : notify.IsLawful) (hnumbered : before.shared.IsNumbered)
    (h : TaskStep before after) : before.shared.KeepsTickets notify after.shared := by
  cases h with
  | @record _ _ shared _ task =>
      exact Shared.keepsTickets_of_outstanding hnumbered (task.outstanding_recordIn shared.group)
  | leave => exact Shared.keepsTickets_decrement hnumbered
  | notify => exact Shared.keepsTickets_notifyWaiters hlawful hnumbered

-- Whoever is counted off was counted.
theorem TaskStep.counted (h : TaskStep before after)
    (hcounted : before.shared.group.outstanding = before.unfinished.length) :
    after.shared.group.outstanding = after.unfinished.length := by
  cases h with
  | @record _ _ shared _ task =>
      have hsame := task.outstanding_recordIn shared.group
      simpa [unfinished, Member.isUnfinished, hsame] using hcounted
  | @leave _ _ shared =>
      have hless := shared.group.outstanding_decrement
      simp only [unfinished, List.filter_append, List.filter_cons, Member.isUnfinished,
        List.length_append] at hcounted ⊢
      simp only [Shared.decrement, hless, hcounted]
      simp
  | @notify _ _ _ shared => exact (congrArg _ shared.group_notifyWaiters).trans hcounted

theorem TaskStep.order (h : TaskStep before after) (horder : before.order.Perm before.told) :
    after.order.Perm after.told := by
  cases h with
  | @record _ order _ _ task first behind =>
      simp only [told, List.filter_append, List.filter_cons, Member.hasTold,
        List.map_append] at horder ⊢
      simp only [bne_self_eq_false, Bool.false_eq_true, if_false] at horder
      have hmore : (order ++ [task]).Perm (task :: order) := List.perm_append_comm
      apply hmore.trans
      apply (horder.cons task).trans
      simpa using List.perm_middle.symm
  | leave => simpa [told, Member.hasTold] using horder
  | notify => exact horder

-- A task that is not over brings its failure to the group, or none.
theorem TaskStep.failure (h : TaskStep before after)
    (hfailure : before.shared.group.failure = before.firstFailure) :
    after.shared.group.failure = after.firstFailure := by
  cases h with
  | @record _ order shared _ task =>
      have hrecord := task.failure_recordIn shared.group
      simp only [firstFailure] at hfailure ⊢
      rw [hrecord, hfailure, List.findSome?_append, List.findSome?_singleton]
  | @leave _ _ shared => exact shared.group.failure_decrement.trans hfailure
  | @notify _ _ _ shared => exact (congrArg _ shared.group_notifyWaiters).trans hfailure

-- Once nobody counts, tasks leave the group alone.
theorem TaskStep.of_drained (h : TaskStep before after)
    (hcounted : before.shared.group.outstanding = before.unfinished.length)
    (hzero : before.shared.group.outstanding = 0) :
    after.shared.group = before.shared.group ∧ after.firstFailure = before.firstFailure := by
  have hnone : before.unfinished = [] := List.eq_nil_of_length_eq_zero (hcounted.symm.trans hzero)
  cases h with
  | record => simp [unfinished, Member.isUnfinished] at hnone
  | leave => simp [unfinished, Member.isUnfinished] at hnone
  | @notify _ _ _ shared => exact ⟨shared.group_notifyWaiters, rfl⟩

theorem TaskStep.drains (hlawful : notify.IsLawful) (h : TaskStep before after)
    (horderly : before.IsOrderly notify tasks) : after.Drains notify := by
  have hdrains := horderly.drains
  have hcounted := horderly.counted
  have hkeeps := h.keepsTickets hlawful horderly.numbered
  unfold Drains at hdrains ⊢
  rw [h.drain_eq, h.waiting_eq]
  cases hdrain : before.drain with
  | unstarted =>
      rw [hdrain] at hdrains
      exact h.failure hdrains
  | under place =>
      rw [hdrain] at hdrains
      obtain ⟨hwaiting, hfailure, hwakeable, hreleased⟩ := hdrains
      refine ⟨hwaiting, h.failure hfailure, hwakeable.keep hkeeps, fun hplace => ?_⟩
      have hzero := hreleased hplace
      rw [(h.of_drained hcounted hzero).1, hzero]
  | ended result =>
      rw [hdrain] at hdrains
      obtain ⟨hwaiting, hgroup, hresult⟩ := hdrains
      have hzero : before.shared.group.outstanding = 0 := by rw [hgroup]; rfl
      obtain ⟨hsame, hfirst⟩ := h.of_drained hcounted hzero
      exact ⟨hwaiting, hsame.trans hgroup, hfirst ▸ hresult⟩

theorem TaskStep.isOrderly (hlawful : notify.IsLawful) (h : TaskStep before after)
    (horderly : before.IsOrderly notify tasks) : after.IsOrderly notify tasks where
  tasks := by rw [h.tasks_eq, h.waiting_eq, horderly.tasks]
  counted := h.counted horderly.counted
  order := h.order horderly.order
  numbered := (h.keepsTickets hlawful horderly.numbered).numbered
  drains := h.drains hlawful horderly

-- Of the group, a step of the drain changes the failure at most, in the end.
theorem DrainStep.isOrderly (hlawful : notify.IsLawful) (h : DrainStep notify before after)
    (horderly : before.IsOrderly notify tasks) : after.IsOrderly notify tasks := by
  obtain ⟨htasks, hcounted, horder, hnumbered, hdrains⟩ := horderly
  cases h with
  | begin => exact ⟨htasks, hcounted, horder, hnumbered, rfl, hdrains, trivial, nofun⟩
  | @goesOn _ _ _ shared later place next hstep =>
      obtain ⟨hwaiting, hfailure, hwakeable, _⟩ := hdrains
      have hkeeps := Shared.keepsTickets_advance hlawful hnumbered hstep
      have hgroup : later.group = shared.group := Watch.group_of_goesOn hstep
      rw [← hgroup] at hcounted hfailure
      refine ⟨htasks, hcounted, horder, hkeeps.numbered, hwaiting, hfailure,
        Watch.isWakeable_of_goesOn hwakeable hstep, ?_⟩
      rintro rfl
      exact hgroup ▸ Watch.outstanding_of_released hstep
  | @finish _ _ _ shared later place result hstep =>
      obtain ⟨hwaiting, hfailure, _, hreleased⟩ := hdrains
      obtain rfl : place = .released := Watch.place_of_ended hstep
      have hzero := hreleased rfl
      have hend : shared.group = ⟨0, shared.group.failure⟩ := by rw [← hzero]
      simp only [Watch.advance, Prod.mk.injEq, SyncGroup.Progress.ended.injEq,
        SyncGroup.Answer.finished.injEq] at hstep
      obtain ⟨rfl, rfl⟩ := hstep
      have hempty : shared.group.result.1 = .empty := by
        rw [hend]
        cases shared.group.failure <;> rfl
      refine ⟨htasks, ?_, horder, hnumbered, hwaiting, hempty, ?_⟩
      · have hleft : shared.group.result.1.outstanding = 0 := by rw [hempty]; rfl
        exact (hleft.trans hzero.symm).trans hcounted
      · rw [hend, hfailure]
        rfl

theorem Scene.Step.isOrderly (hlawful : notify.IsLawful) (h : Step notify before after)
    (horderly : before.IsOrderly notify tasks) : after.IsOrderly notify tasks := by
  cases h with
  | spawn =>
      obtain ⟨htasks, hcounted, horder, hnumbered, hdrains⟩ := horderly
      refine ⟨by simpa using htasks, ?_, ?_, hnumbered, hdrains⟩
      · simpa [unfinished, Member.isUnfinished, Shared.increment, SyncGroup.increment]
          using hcounted
      · simpa [told, Member.hasTold] using horder
  | task hstep => exact hstep.isOrderly hlawful horderly
  | drain hstep => exact hstep.isOrderly hlawful horderly

theorem Scene.Reachable.isOrderly (hlawful : notify.IsLawful) (h : Reachable notify tasks scene) :
    scene.IsOrderly notify tasks := by
  induction h with
  | refl => exact isOrderly_start notify tasks
  | tail _ hstep ih => exact hstep.isOrderly hlawful ih

end IndexFleet.Runner
