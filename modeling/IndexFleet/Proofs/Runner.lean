import IndexFleet.Proofs.SyncGroup
import IndexFleet.Runner

namespace IndexFleet

namespace Task

def recordIn (task : Task) (group : SyncGroup) : SyncGroup :=
  match task.failure? with
  | some failure => (group.record failure).1
  | none => group

theorem failure?_eq_none {task : Task} :
    task.failure? = none ↔ ∃ answer, task.ending = .succeeded answer := by
  unfold failure?
  cases task.ending <;> simp

theorem failure?_eq_some {task : Task} {failure : Failure} :
    task.failure? = some failure ↔ task.ending = .failed failure ∨
      task.ending = .panicked ∧ failure = .taskPanicked task.label := by
  unfold failure?
  cases task.ending <;> simp [eq_comm]

theorem outstanding_recordIn (task : Task) (group : SyncGroup) :
    (task.recordIn group).outstanding = group.outstanding := by
  unfold recordIn
  split
  · exact group.outstanding_record _
  · rfl

theorem failure_recordIn (task : Task) (group : SyncGroup) :
    (task.recordIn group).failure = group.failure.or task.failure? := by
  unfold recordIn
  split
  case h_1 failure hfailure => rw [SyncGroup.failure_record, hfailure]
  case h_2 hfailure => rw [hfailure, Option.or_none]

-- A task that ends records its failure first and is counted off then.
theorem finish_eq (task : Task) (group : SyncGroup) :
    task.finish group = ((task.recordIn group).decrement.1,
      task.notes ++ (task.recordIn group).decrement.2) :=
  rfl

theorem outstanding_finish (task : Task) (group : SyncGroup) :
    (task.finish group).1.outstanding = group.outstanding - 1 := by
  rw [finish_eq, SyncGroup.outstanding_decrement, outstanding_recordIn]

end Task

namespace Runner

theorem failure_finish (group : SyncGroup) (task : Task) :
    (task.finish group).1.failure = group.failure.or task.failure? := by
  rw [Task.finish_eq]
  exact (SyncGroup.failure_decrement _).trans (task.failure_recordIn group)

-- A group keeps the failure of the first task that brings one.
theorem failure_finishAll (group : SyncGroup) (tasks : List Task) :
    (finishAll group tasks).1.failure = group.failure.or (tasks.findSome? (·.failure?)) := by
  induction tasks generalizing group with
  | nil => simp [finishAll]
  | cons task tasks ih =>
      have hall : (finishAll group (task :: tasks)).1 =
          (finishAll (task.finish group).1 tasks).1 := rfl
      rw [hall, ih, failure_finish, Option.or_assoc, List.findSome?_cons]
      cases task.failure? <;> rfl

theorem outstanding_finishAll (group : SyncGroup) (tasks : List Task) :
    (finishAll group tasks).1.outstanding = group.outstanding - tasks.length := by
  induction tasks generalizing group with
  | nil => rfl
  | cons task tasks ih =>
      have hall : (finishAll group (task :: tasks)).1 =
          (finishAll (task.finish group).1 tasks).1 := rfl
      rw [hall, ih, task.outstanding_finish, List.length_cons]
      omega

theorem foldl_spawn_tasks (runner : Runner) (tasks : List Task) :
    tasks.foldl spawn runner =
      ⟨⟨runner.group.outstanding + tasks.length, runner.group.failure⟩,
        runner.waiting ++ tasks⟩ := by
  induction tasks generalizing runner with
  | nil => simp
  | cons task tasks ih =>
      rw [List.foldl_cons, ih]
      simp [spawn, SyncGroup.increment, Nat.add_assoc, Nat.add_comm 1]

-- A runner whose tasks end one after the other is as it was before, and reports the first failure.
theorem drain_foldl_spawn (tasks : List Task) :
    ∃ log, (tasks.foldl spawn start).drain =
      (start, (SyncGroup.result ⟨0, tasks.findSome? (·.failure?)⟩).2, log) := by
  have hgroup : (finishAll ⟨tasks.length, none⟩ tasks).1 =
      ⟨0, tasks.findSome? (·.failure?)⟩ := by
    have houtstanding := outstanding_finishAll ⟨tasks.length, none⟩ tasks
    have hfailure := failure_finishAll ⟨tasks.length, none⟩ tasks
    simp only [Nat.sub_self, Option.none_or] at houtstanding hfailure
    rw [← houtstanding, ← hfailure]
  have hspawned : tasks.foldl spawn start = ⟨⟨tasks.length, none⟩, tasks⟩ := by
    simp [foldl_spawn_tasks, start, SyncGroup.empty]
  refine ⟨(finishAll ⟨tasks.length, none⟩ tasks).2, ?_⟩
  simp only [hspawned, drain, wait, hgroup]
  cases tasks.findSome? (·.failure?) <;> rfl

end Runner

end IndexFleet
