import IndexFleet.Proofs.Runner.Scene
import Mathlib.Algebra.GroupWithZero.Nat

namespace IndexFleet

-- How many steps a waiter takes until it waits without a mark, or is done. A call costs it three
-- more.
def SyncGroup.Place.toGo (notify : Notify) (calls : List NotifyCall) : Place → Nat
  | .outside => 3
  | .registered ticket => if notify.isMarked calls ticket then 5 else 2
  | .waiting ticket => if notify.isMarked calls ticket then 4 else 1
  | .released => 1

namespace Runner

open SyncGroup (Place Shared Watch)

variable {notify : Notify} {tasks : List Task} {before after scene : Scene}

-- The last step of a task may owe a call.
def Standing.toGo : Standing → Nat
  | .working => 6
  | .recorded => 5
  | .finished => 0

def Drain.toGo (notify : Notify) (calls : List NotifyCall) : Drain → Nat
  | .unstarted => 4
  | .under place => place.toGo notify calls
  | .ended _ => 0

def Scene.toGo (notify : Notify) (scene : Scene) : Nat :=
  7 * scene.waiting.length + (scene.members.map (·.standing.toGo)).sum + 4 * scene.shared.owed +
    scene.drain.toGo notify scene.shared.calls

theorem Drain.toGo_notifyWaiters (notify : Notify) (calls : List NotifyCall) (drain : Drain) :
    drain.toGo notify (.notifyWaiters :: calls) ≤ drain.toGo notify calls + 3 := by
  cases drain with
  | unstarted | ended result => simp [toGo]
  | under place =>
      cases place with
      | outside | released => simp [toGo, Place.toGo]
      | registered ticket | waiting ticket =>
          simp only [toGo, Place.toGo]
          split <;> split <;> omega

theorem toGo_advance_lt (hlawful : notify.IsLawful) {shared later : Shared} {place next : Place}
    (hnumbered : shared.IsNumbered)
    (hstep : Watch.advance notify shared ⟨.result, place⟩ = (later, .goesOn next)) :
    next.toGo notify later.calls < place.toGo notify shared.calls := by
  cases Watch.advances_of_eq hstep with
  | register =>
      -- a registration that has just been made is not marked
      have hfresh := hlawful.fresh _ _ (Shared.not_mem_register hnumbered)
      simp [Place.toGo, Shared.register, hfresh]
  | release | wait =>
      simp only [Place.toGo]
      split <;> omega
  | wake hmarked => simp [Place.toGo, hmarked]

theorem TaskStep.toGo_lt (h : TaskStep before after) : after.toGo notify < before.toGo notify := by
  cases h with
  | record =>
      simp only [Scene.toGo, List.map_append, List.map_cons, List.sum_append, List.sum_cons,
        Standing.toGo]
      omega
  | @leave _ _ shared =>
      have howed : shared.decrement.1.owed ≤ shared.owed + 1 := by
        simp only [Shared.decrement]
        split <;> omega
      have hcalls : shared.decrement.1.calls = shared.calls := rfl
      simp only [Scene.toGo, List.map_append, List.map_cons, List.sum_append, List.sum_cons,
        Standing.toGo, hcalls]
      omega
  | @notify _ _ _ shared drain howed =>
      have hcost := drain.toGo_notifyWaiters notify shared.calls
      simp only [Scene.toGo, Shared.notifyWaiters, howed, if_false]
      omega

theorem DrainStep.toGo_lt (hlawful : notify.IsLawful) (hnumbered : before.shared.IsNumbered)
    (h : DrainStep notify before after) : after.toGo notify < before.toGo notify := by
  cases h with
  | begin =>
      simp only [Scene.toGo, Drain.toGo, Place.toGo]
      omega
  | @goesOn _ _ _ shared later place next hstep =>
      have hless : next.toGo notify later.calls < place.toGo notify shared.calls :=
        toGo_advance_lt hlawful hnumbered hstep
      have howed : later.owed = shared.owed := Watch.owed_advance hstep
      simp only [Scene.toGo, Drain.toGo, howed]
      omega
  | @finish _ _ _ shared later place result hstep =>
      obtain rfl : place = .released := Watch.place_of_ended hstep
      have howed : later.owed = shared.owed := Watch.owed_advance hstep
      simp only [Scene.toGo, Drain.toGo, Place.toGo, howed]
      omega

theorem Scene.Step.toGo_lt (hlawful : notify.IsLawful) (hnumbered : before.shared.IsNumbered)
    (h : Step notify before after) : after.toGo notify < before.toGo notify := by
  cases h with
  | spawn =>
      simp only [Scene.toGo, List.length_cons, List.map_append, List.map_cons, List.map_nil,
        List.sum_append, List.sum_cons, List.sum_nil, Standing.toGo, Shared.increment]
      omega
  | task hstep => exact hstep.toGo_lt
  | drain hstep => exact hstep.toGo_lt hlawful hnumbered

namespace Scene

theorem IsOrderly.acc (hlawful : notify.IsLawful) (horderly : scene.IsOrderly notify tasks) :
    Acc (fun after before => Step notify before after) scene := by
  induction hsize : scene.toGo notify using Nat.strongRecOn generalizing scene with
  | ind size ih =>
      constructor
      intro after hstep
      have hless := hstep.toGo_lt hlawful horderly.numbered
      exact ih _ (hsize ▸ hless) (hstep.isOrderly hlawful horderly) rfl

-- Somebody who counts has a step to take.
theorem exists_taskStep_of_unfinished (hbusy : scene.unfinished ≠ []) :
    ∃ after, TaskStep scene after := by
  obtain ⟨waiting, members, shared, drain, order⟩ := scene
  obtain ⟨member, hmember⟩ := List.exists_mem_of_ne_nil _ hbusy
  obtain ⟨hmem, hunfinished⟩ := List.mem_filter.mp hmember
  obtain ⟨before, behind, rfl⟩ := List.append_of_mem hmem
  obtain ⟨task, standing⟩ := member
  cases standing with
  | working => exact ⟨_, .record before⟩
  | recorded => exact ⟨_, .leave before⟩
  | finished => exact absurd hunfinished Bool.noConfusion

-- The drain can go on by itself unless it waits for a mark.
theorem exists_drainStep {waiting order : List Task} {members : List Member} {shared : Shared}
    {place : Place}
    (hmarked : ∀ ticket, place = .waiting ticket → notify.isMarked shared.calls ticket = true) :
    ∃ after, DrainStep notify ⟨waiting, members, shared, .under place, order⟩ after := by
  cases place with
  | outside => exact ⟨_, .goesOn rfl⟩
  | registered ticket => exact ⟨_, .goesOn rfl⟩
  | waiting ticket =>
      have hstep : Watch.advance notify shared ⟨.result, .waiting ticket⟩ =
          (shared, .goesOn .outside) := by simp [Watch.advance, hmarked ticket rfl]
      exact ⟨_, .goesOn hstep⟩
  | released => exact ⟨_, .finish rfl⟩

-- If the drain waits for a mark, then somebody counts or owes the call.
theorem IsOrderly.exists_step (horderly : scene.IsOrderly notify tasks)
    (hopen : ∀ result, scene.drain ≠ .ended result) : ∃ after, Step notify scene after := by
  have hdrains := horderly.drains
  have hcounted := horderly.counted
  obtain ⟨waiting, members, shared, drain, order⟩ := scene
  cases drain with
  | unstarted =>
      cases waiting with
      | nil => exact ⟨_, .drain .begin⟩
      | cons task waiting => exact ⟨_, .spawn⟩
  | under place =>
      by_cases hmarked : ∀ ticket, place = .waiting ticket →
          notify.isMarked shared.calls ticket = true
      · obtain ⟨after, hstep⟩ := exists_drainStep hmarked
        exact ⟨after, .drain hstep⟩
      · push Not at hmarked
        obtain ⟨ticket, rfl, hunmarked⟩ := hmarked
        obtain ⟨_, _, ⟨_, hpending⟩, _⟩ := hdrains
        rcases hpending.resolve_left hunmarked with hbusy | howed
        · have hsome :
              unfinished ⟨waiting, members, shared, .under (.waiting ticket), order⟩ ≠ [] := by
            intro hnone
            rw [hnone] at hcounted
            exact hbusy hcounted
          obtain ⟨after, hstep⟩ := exists_taskStep_of_unfinished hsome
          exact ⟨after, .task hstep⟩
        · exact ⟨_, .task (.notify howed)⟩
  | ended result => exact absurd rfl (hopen result)

-- All tasks are started and finished, and the call that the last one owed is made.
structure IsSettled (scene : Scene) : Prop where
  waiting : scene.waiting = []
  finished : ∀ member ∈ scene.members, member.standing = .finished
  owed : scene.shared.owed = 0

theorem IsSettled.not_taskStep (hsettled : scene.IsSettled) : ¬TaskStep scene after := by
  intro hstep
  cases hstep with
  | record => exact nomatch hsettled.finished _ (List.mem_append_right _ List.mem_cons_self)
  | leave => exact nomatch hsettled.finished _ (List.mem_append_right _ List.mem_cons_self)
  | notify howed => exact howed hsettled.owed

theorem IsSettled.drainStep (hsettled : before.IsSettled) (hstep : DrainStep notify before after) :
    after.IsSettled := by
  obtain ⟨hwaiting, hfinished, howed⟩ := hsettled
  cases hstep with
  | begin => exact ⟨hwaiting, hfinished, howed⟩
  | @goesOn _ _ _ shared _ place _ hstep | @finish _ _ _ shared _ place _ hstep =>
      exact ⟨hwaiting, hfinished, (Watch.owed_advance hstep).trans howed⟩

-- Nobody but the drain has a step to take then, and it does not stop before its end.
theorem IsOrderly.exists_ended (hlawful : notify.IsLawful)
    (horderly : scene.IsOrderly notify tasks) (hsettled : scene.IsSettled) :
    ∃ after result, Relation.ReflTransGen (DrainStep notify) scene after ∧
      after.drain = .ended result := by
  have hacc := horderly.acc hlawful
  induction hacc with
  | intro scene _ ih =>
      by_cases hopen : ∃ result, scene.drain = .ended result
      · obtain ⟨result, hended⟩ := hopen
        exact ⟨scene, result, .refl, hended⟩
      · push Not at hopen
        obtain ⟨next, hstep⟩ := horderly.exists_step hopen
        have hnext := hstep.isOrderly hlawful horderly
        cases hstep with
        | spawn => exact nomatch hsettled.waiting
        | task htask => exact absurd htask hsettled.not_taskStep
        | drain hdrain =>
            obtain ⟨after, result, hsteps, hended⟩ :=
              ih next (.drain hdrain) hnext (hsettled.drainStep hdrain)
            exact ⟨after, result, .head hdrain hsteps, hended⟩

-- How a runner is left by a drain.
structure IsDrained (tasks : List Task) (scene : Scene) (result : Except Failure Unit) :
    Prop where
  waiting : scene.waiting = []
  finished : ∀ member ∈ scene.members, member.standing = .finished
  members : scene.members.map (·.task) = tasks
  -- the count is zero and the slot is empty
  group : scene.shared.group = ⟨0, none⟩
  -- every task has recorded its end once
  order : scene.order.Perm tasks
  failed : (∃ failure, result = .error failure) ↔
    ∃ task ∈ tasks, ∀ answer, task.ending ≠ .succeeded answer
  -- the failure is that of the first task that has one, and a panic is told with its label
  first : ∀ failure, result = .error failure → ∃ earlier task later,
    scene.order = earlier ++ task :: later ∧
      (∀ other ∈ earlier, ∃ answer, other.ending = .succeeded answer) ∧
      (task.ending = .failed failure ∨
        task.ending = .panicked ∧ failure = .taskPanicked task.label)
  -- as if the tasks had ended one after the other, in that order
  inTurn : ∃ log, (scene.order.foldl spawn Runner.start).drain = (Runner.start, result, log)

theorem IsOrderly.isDrained {result : Except Failure Unit}
    (horderly : scene.IsOrderly notify tasks) (hended : scene.drain = .ended result) :
    scene.IsDrained tasks result := by
  obtain ⟨htasks, hcounted, horder, _, hdrains⟩ := horderly
  unfold Drains at hdrains
  rw [hended] at hdrains
  obtain ⟨hwaiting, hgroup, hresult⟩ := hdrains
  have hnone : scene.unfinished = [] := by
    rw [hgroup] at hcounted
    exact List.eq_nil_of_length_eq_zero hcounted.symm
  have hfinished : ∀ member ∈ scene.members, member.standing = .finished := by
    simpa [unfinished, Member.isUnfinished] using hnone
  have htold : scene.told = tasks := by
    have hall : ∀ member ∈ scene.members, member.hasTold = true := by
      intro member hmember
      simp [Member.hasTold, hfinished member hmember]
    rw [told, List.filter_eq_self.mpr hall, ← htasks, hwaiting, List.append_nil]
  have hperm : scene.order.Perm tasks := htold ▸ horder
  exact
    { waiting := hwaiting
      finished := hfinished
      members := by rw [← htasks, hwaiting, List.append_nil]
      group := hgroup
      order := hperm
      failed := by
        have hfailed : (∃ failure, result = .error failure) ↔ scene.firstFailure ≠ none := by
          simp only [hresult, SyncGroup.snd_result_eq_error, Option.ne_none_iff_exists']
        rw [hfailed, firstFailure, ne_eq, List.findSome?_eq_none_iff]
        simp only [Task.failure?_eq_none, hperm.mem_iff, not_forall, not_exists, exists_prop]
      first := fun failure herror => by
        have hfirst := SyncGroup.snd_result_eq_error.mp (hresult.symm.trans herror)
        obtain ⟨earlier, task, later, hsplit, hfailure, hearlier⟩ :=
          List.findSome?_eq_some_iff.mp hfirst
        refine ⟨earlier, task, later, hsplit, ?_, Task.failure?_eq_some.mp hfailure⟩
        intro other hother
        exact Task.failure?_eq_none.mp (hearlier other hother)
      inTurn := hresult ▸ drain_foldl_spawn scene.order }

-- A drain covers whatever was started before it.
structure Covers (notify : Notify) (tasks : List Task) : Prop where
  -- no execution goes on for ever, and none stops before the drain is over
  ends : Acc (fun after before => Step notify before after) (start tasks)
  goesOn : ∀ scene, Reachable notify tasks scene → (∀ result, scene.drain ≠ .ended result) →
    ∃ after, Step notify scene after
  -- once all tasks are finished the drain takes nobody else to come to its end
  completes : ∀ scene, Reachable notify tasks scene → scene.IsSettled →
    ∃ after result, Relation.ReflTransGen (DrainStep notify) scene after ∧
      after.drain = .ended result
  -- and it comes to its end only then
  drained : ∀ scene result, Reachable notify tasks scene → scene.drain = .ended result →
    scene.IsDrained tasks result

theorem covers_of_isLawful (hlawful : notify.IsLawful) (tasks : List Task) :
    Covers notify tasks where
  ends := (isOrderly_start notify tasks).acc hlawful
  goesOn _ hreachable hopen := (hreachable.isOrderly hlawful).exists_step hopen
  completes _ hreachable hsettled :=
    (hreachable.isOrderly hlawful).exists_ended hlawful hsettled
  drained _ _ hreachable hended := (hreachable.isOrderly hlawful).isDrained hended

-- One task for each way to end.
theorem covers_threeEndings :
    Notify.broadcast.IsLawful ∧
      Covers .broadcast [⟨"ping@a", .succeeded "<ok/>"⟩, ⟨"ping@b", .panicked⟩,
        ⟨"ping@c", .failed (.rejected "c:8983" 400 "bad request")⟩] :=
  ⟨Notify.isLawful_broadcast, covers_of_isLawful Notify.isLawful_broadcast _⟩

end Scene

end Runner

end IndexFleet
