import IndexFleet.Proofs.Execution.Invariant
import Mathlib.Logic.Hydra

namespace IndexFleet

variable {tree : FileTree} {world : World}

namespace Job

variable {job : Job}

-- What a job can become with one step.
def Precedes (tree : FileTree) (world : World) (next job : Job) : Prop :=
  ∃ group after told, job.Step tree world group after next told

variable (command : Command) (calls : List (Request × Reply)) (log : Log)

theorem acc_ceased (ending : TaskEnd) :
    Acc (Precedes tree world) ⟨command, calls, log, .ceased ending⟩ := by
  have hfinished : Acc (Precedes tree world) ⟨command, calls, log, .finished ending⟩ :=
    .intro _ fun _ ⟨_, _, _, hstep⟩ => nomatch hstep
  have hrecorded : Acc (Precedes tree world) ⟨command, calls, log, .recorded ending⟩ := by
    refine .intro _ fun next ⟨_, _, _, hstep⟩ => ?_
    cases hstep with
    | leave => exact hfinished
  refine .intro _ fun next ⟨_, _, _, hstep⟩ => ?_
  cases hstep with
  | record => exact hrecorded

-- A dialogue has an end whatever comes of its calls.
theorem acc_working (rest : Dialogue (Except Failure String)) :
    Acc (Precedes tree world) ⟨command, calls, log, .working rest⟩ := by
  induction rest generalizing calls log with
  | done result =>
      refine .intro _ fun next ⟨_, _, _, hstep⟩ => ?_
      cases hstep with
      | cease | panic => exact acc_ceased _ _ _ _
  | say entry rest ih =>
      refine .intro _ fun next ⟨_, _, _, hstep⟩ => ?_
      cases hstep with
      | say => exact ih _ _
      | panic => exact acc_ceased _ _ _ _
  | ask request rest ih =>
      refine .intro _ fun next ⟨_, _, _, hstep⟩ => ?_
      cases hstep with
      | panic => exact acc_ceased _ _ _ _
      | ask =>
          refine .intro _ fun next ⟨_, _, _, hstep⟩ => ?_
          cases hstep with
          | hear => exact ih _ _ _

theorem wellFounded_precedes (tree : FileTree) (world : World) :
    WellFounded (Precedes tree world) := by
  refine ⟨fun ⟨command, calls, log, stage⟩ => .intro _ fun next ⟨_, _, _, hstep⟩ => ?_⟩
  cases hstep with
  | start | say | hear => exact acc_working _ _ _ _
  | cease | panic => exact acc_ceased _ _ _ _
  | ask => exact (acc_working _ _ _ _).inv ⟨SyncGroup.empty, SyncGroup.empty, _, .ask⟩
  | record => exact (acc_ceased _ _ _ _).inv ⟨SyncGroup.empty, _, _, .record⟩
  | leave =>
      refine .intro _ fun next ⟨_, _, _, hstep⟩ => nomatch hstep

-- A job that is not finished can go on if something may come of every call.
theorem exists_step (hreplies : ∀ request, ∃ reply, world.mayReply request reply)
    (hbusy : job.isUnfinished = true) (group : SyncGroup) :
    ∃ after next told, job.Step tree world group after next told := by
  obtain ⟨command, calls, log, stage⟩ := job
  cases stage with
  | counted => exact ⟨_, _, _, .start⟩
  | working rest =>
      cases rest with
      | done result => exact ⟨_, _, _, .cease⟩
      | say entry next => exact ⟨_, _, _, .say⟩
      | ask request next => exact ⟨_, _, _, .ask⟩
  | asking request next =>
      obtain ⟨reply, hreply⟩ := hreplies request
      exact ⟨_, _, _, .hear hreply⟩
  | ceased ending => exact ⟨_, _, _, .record⟩
  | recorded ending => exact ⟨_, _, _, .leave⟩
  | finished ending => exact absurd hbusy Bool.noConfusion

end Job

namespace Crew

variable {crew next : Crew} {told : Log}

theorem exists_step (hreplies : ∀ request, ∃ reply, world.mayReply request reply)
    (hbusy : crew.unfinished ≠ []) : ∃ next told, crew.Step tree world next told := by
  obtain ⟨group, jobs⟩ := crew
  obtain ⟨job, hjob⟩ := List.exists_mem_of_ne_nil _ hbusy
  obtain ⟨hmem, hunfinished⟩ := List.mem_filter.mp hjob
  obtain ⟨before, behind, rfl⟩ := List.append_of_mem hmem
  obtain ⟨after, next, told, hstep⟩ := Job.exists_step hreplies hunfinished group
  exact ⟨_, _, .job before hstep⟩

end Crew

-- How many steps the dispatcher has before it. A wave takes three besides those that start its
-- tasks: it is entered, awaited and left.
def PlanStep.toGo : PlanStep → Nat
  | .note _ => 1
  | .wave ⟨_, commands⟩ => commands.length + 3

def Control.toGo : Control → Nat
  | .between steps => (steps.map (·.toGo)).sum + 1
  | .starting commands steps => commands.length + (steps.map (·.toGo)).sum + 3
  | .draining steps => (steps.map (·.toGo)).sum + 2
  | .returned _ => 0

def ExecutionState.jobs (state : ExecutionState) : Multiset Job := state.crews.flatMap (·.jobs)

theorem cutExpand_of_replaced {α : Type} {precedes : α → α → Prop} {item next : α}
    (hnext : precedes next item) (before behind : List α) :
    Relation.CutExpand precedes (before ++ next :: behind : List α)
      (before ++ item :: behind : List α) := by
  have hmiddle : ∀ one : α, ((before ++ one :: behind : List α) : Multiset α) =
      {one} + (before ++ behind : List α) := fun one =>
    Multiset.coe_eq_coe.mpr List.perm_middle
  rw [hmiddle, hmiddle]
  exact Relation.cutExpand_single_add hnext _

namespace ClusterCommand

variable {command : ClusterCommand} {state next : ExecutionState}

-- The dispatcher comes nearer to its end, or one of the jobs does.
theorem Step.descends (hstep : command.Step tree world state next) :
    next.control.toGo < state.control.toGo ∨ (next.control = state.control ∧
      Relation.CutExpand (Job.Precedes tree world) next.jobs state.jobs) := by
  cases hstep with
  | tell | enter | spawn | await | goOn =>
      refine .inl ?_
      simp only [Control.toGo, PlanStep.toGo, List.map_cons, List.sum_cons, List.length_cons,
        List.length_nil]
      omega
  | giveUp | finish =>
      rw [close_eq]
      exact .inl (Nat.succ_pos _)
  | @work _ later earlier _ _ _ _ _ hcrew =>
      cases hcrew with
      | @job _ _ before behind _ _ _ hjob =>
          refine .inr ⟨rfl, ?_⟩
          have hgave : Job.Precedes tree world _ _ := ⟨_, _, _, hjob⟩
          have hjobs := cutExpand_of_replaced hgave
            (later.flatMap (·.jobs) ++ before) (behind ++ earlier.flatMap (·.jobs))
          simpa [ExecutionState.jobs] using hjobs

-- No order of the tasks and no replies let an execution go on for ever.
theorem wellFounded_step (command : ClusterCommand) (tree : FileTree) (world : World) :
    WellFounded fun next state => command.Step tree world state next := by
  have hlex := WellFounded.prod_lex Nat.lt_wfRel.wf (Job.wellFounded_precedes tree world).cutExpand
  refine Subrelation.wf (fun {next state} hstep => ?_)
    (InvImage.wf (fun state : ExecutionState => (state.control.toGo, state.jobs)) hlex)
  rcases hstep.descends with hless | ⟨hcontrol, hjobs⟩
  · exact Prod.Lex.left _ _ hless
  · rw [InvImage, hcontrol]
    exact Prod.Lex.right _ hjobs

-- Nor does any of them bring it to a standstill before it returns: a wave that cannot be left has
-- a task at work.
theorem exists_step (hreplies : ∀ request, ∃ reply, world.mayReply request reply)
    (hreach : command.Reachable tree world state) (hrun : state.run? = none) :
    ∃ next, command.Step tree world state next := by
  have hfollows := ExecutionState.followsPlan_of_reachable hreach
  obtain ⟨control, crews, phases, log⟩ := state
  cases control with
  | returned result => exact nomatch hrun
  | between steps =>
      cases steps with
      | nil => exact ⟨_, .finish⟩
      | cons step steps =>
          cases step with
          | note entry => exact ⟨_, .tell⟩
          | wave wave => exact ⟨_, .enter⟩
  | starting commands steps =>
      cases commands with
      | nil => exact ⟨_, .await⟩
      | cons fresh commands =>
          cases hfollows with
          | starting => exact ⟨_, .spawn⟩
  | draining steps =>
      cases hfollows with
      | @draining rest crew earlier log hcounted =>
          by_cases hbusy : crew.unfinished = []
          · have hzero : crew.group.outstanding = 0 := by
              rw [hcounted, hbusy, List.length_nil]
            have hdrained := SyncGroup.isDrained_iff.mpr hzero
            cases hresult : crew.group.result with
            | mk group result =>
                cases result with
                | ok => exact ⟨_, .goOn hdrained hresult⟩
                | error failure => exact ⟨_, .giveUp hdrained hresult⟩
          · obtain ⟨next, told, hstep⟩ := Crew.exists_step hreplies hbusy
            exact ⟨_, .work [] hstep⟩

end ClusterCommand

end IndexFleet
