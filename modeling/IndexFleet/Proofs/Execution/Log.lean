import IndexFleet.Proofs.Execution.Outcome

namespace IndexFleet

variable {tree : FileTree} {world : World}

-- What is told when a task ends, and not by its command.
inductive Entry.IsOfEnding (entry : Entry) : Prop
  | recorded {task : Task} (htask : entry ∈ task.notes)
  | left {group : SyncGroup} (hgroup : entry ∈ group.decrement.2)

-- What an execution tells besides what the commands of its tasks do.
inductive ClusterCommand.MayTell (command : ClusterCommand) (tree : FileTree) (entry : Entry) : Prop
  | planned (hplan : entry ∈ (command.plan tree).told)
  | ending (hending : entry.IsOfEnding)
  | verdict {result : Except Failure Unit} (hverdict : entry = command.verdict result)

theorem Job.Step.log_eq {group after : SyncGroup} {job next : Job} {told : Log}
    (hstep : job.Step tree world group after next told) :
    ∃ said others, told = said ++ others ∧ next.log = job.log ++ said ∧
      ∀ entry ∈ others, entry.IsOfEnding := by
  cases hstep with
  | say => exact ⟨[_], [], rfl, rfl, List.forall_mem_nil _⟩
  | record => exact ⟨[], _, rfl, (List.append_nil _).symm, fun _ htask => .recorded htask⟩
  | leave => exact ⟨[], _, rfl, (List.append_nil _).symm, fun _ hgroup => .left hgroup⟩
  | start | ask | hear | cease | panic =>
      exact ⟨[], [], rfl, (List.append_nil _).symm, List.forall_mem_nil _⟩

namespace Crew

variable {crew next : Crew} {told : Log}

def log (crew : Crew) : Log := crew.jobs.flatMap (·.log)

theorem Step.log_perm (hstep : crew.Step tree world next told) :
    ∃ others, (crew.log ++ told).Perm (next.log ++ others) ∧
      ∀ entry ∈ others, entry.IsOfEnding := by
  cases hstep with
  | @job group after before behind job next told hjob =>
      obtain ⟨said, others, rfl, hlog, hothers⟩ := hjob.log_eq
      refine ⟨others, ?_, hothers⟩
      simp only [log, List.flatMap_append, List.flatMap_cons, hlog, List.append_assoc]
      refine List.Perm.append_left _ (List.Perm.append_left _ ?_)
      rw [← List.append_assoc, ← List.append_assoc]
      exact List.perm_append_comm.append_right others

theorem log_spawn (crew : Crew) (command : Command) : (crew.spawn command).log = crew.log := by
  simp [log, spawn, Job.ofCommand]

theorem log_runs (crew : Crew) : crew.runs.flatMap (·.transcript.log) = crew.log := by
  rw [runs, List.flatMap_map]
  rfl

end Crew

namespace ExecutionState

variable {command : ClusterCommand} {state : ExecutionState}

def told (state : ExecutionState) : Log := state.crews.flatMap (·.log)

-- The log holds what the commands tell and what the execution tells besides, and nothing twice.
theorem log_perm (hreach : command.Reachable tree world state) :
    ∃ others, state.log.Perm (state.told ++ others) ∧
      ∀ entry ∈ others, command.MayTell tree entry := by
  have hsteps : ∀ {done rest : List PlanStep} {step : PlanStep},
      (command.plan tree).steps = done ++ step :: rest →
        ∀ entry ∈ step.told, command.MayTell tree entry := by
    intro done rest step hplan entry hentry
    refine .planned (List.mem_flatMap.mpr ⟨step, ?_, hentry⟩)
    rw [hplan]
    exact List.mem_append_right _ List.mem_cons_self
  induction hreach with
  | refl => exact ⟨[], .nil, List.forall_mem_nil _⟩
  | @tail state next hbefore hstep ih =>
      obtain ⟨others, hperm, hothers⟩ := ih
      have hmore : ∀ more : Log, (∀ entry ∈ more, command.MayTell tree entry) →
          ∃ others, (state.log ++ more).Perm (state.told ++ others) ∧
            ∀ entry ∈ others, command.MayTell tree entry := by
        intro more hmore
        refine ⟨others ++ more, ?_, List.forall_mem_append.mpr ⟨hothers, hmore⟩⟩
        rw [← List.append_assoc]
        exact hperm.append_right more
      have hfollows := followsPlan_of_reachable hbefore
      cases hstep with
      | @tell entry =>
          cases hfollows with
          | between hleft =>
              obtain ⟨done, hplan, _⟩ := hleft
              exact hmore [entry] (hsteps hplan)
      | @enter wave =>
          cases hfollows with
          | between hleft =>
              obtain ⟨done, hplan, _⟩ := hleft
              exact hmore wave.notes (hsteps hplan)
      | await => exact ⟨others, hperm, hothers⟩
      | goOn => exact ⟨others, hperm, hothers⟩
      | spawn =>
          refine ⟨others, ?_, hothers⟩
          simp only [told, List.flatMap_cons, Crew.log_spawn] at hperm ⊢
          exact hperm
      | giveUp =>
          rw [ClusterCommand.close_eq]
          exact hmore [_] (List.forall_mem_singleton.mpr (.verdict rfl))
      | finish =>
          rw [ClusterCommand.close_eq]
          exact hmore [_] (List.forall_mem_singleton.mpr (.verdict rfl))
      | @work control later earlier crew next phases log heard hcrew =>
          obtain ⟨more, hmoved, hending⟩ := hcrew.log_perm
          refine ⟨more ++ others, ?_, List.forall_mem_append.mpr
            ⟨fun entry hentry => .ending (hending entry hentry), hothers⟩⟩
          rw [List.perm_iff_count] at hperm hmoved ⊢
          intro entry
          have hbefore := hperm entry
          have hhere := hmoved entry
          simp only [told, List.flatMap_append, List.flatMap_cons, List.count_append]
            at hbefore hhere ⊢
          omega

end ExecutionState

namespace ClusterCommand

variable {command : ClusterCommand} {run : Run}

theorem MayLeave.log_perm (h : command.MayLeave tree world run) :
    ∃ others, run.log.Perm (run.waves.flatten.flatMap (·.transcript.log) ++ others) ∧
      ∀ entry ∈ others, command.MayTell tree entry := by
  obtain ⟨result, crews, phases, log, hreach, rfl⟩ := h.exists_returned
  have htold : (runsOf crews).flatten.flatMap (·.transcript.log) =
      crews.reverse.flatMap (·.log) := by
    rw [runsOf, ← List.flatMap_def, List.flatMap_assoc]
    simp only [Crew.log_runs]
  obtain ⟨others, hperm, hothers⟩ := ExecutionState.log_perm hreach
  refine ⟨others, hperm.trans (List.Perm.append_right others ?_), hothers⟩
  rw [htold]
  exact ((List.reverse_perm crews).flatMap_right (·.log)).symm

theorem MayLeave.count_log_le (h : command.MayLeave tree world run) (entry : Entry) :
    (run.waves.flatten.flatMap (·.transcript.log)).count entry ≤ run.log.count entry := by
  obtain ⟨others, hperm, _⟩ := h.log_perm
  rw [hperm.count_eq, List.count_append]
  exact Nat.le_add_right _ _

end ClusterCommand

end IndexFleet
