import IndexFleet.Proofs.Execution.Outcome

namespace IndexFleet

variable {tree : FileTree} {world : World} {network : Network}

namespace Crew

inductive Steps (tree : FileTree) (world : World) : Crew → Crew → Log → Prop
  | refl {crew : Crew} : Steps tree world crew crew []
  | head {crew mid last : Crew} {told more : Log} (hstep : crew.Step tree world mid told)
      (hsteps : Steps tree world mid last more) : Steps tree world crew last (told ++ more)

variable {crew mid last : Crew} {told more : Log}

theorem Steps.trans (hfirst : Steps tree world crew mid told)
    (hsecond : Steps tree world mid last more) : Steps tree world crew last (told ++ more) := by
  induction hfirst with
  | refl => exact hsecond
  | head hstep _ ih =>
      rw [List.append_assoc]
      exact .head hstep (ih hsecond)

theorem Steps.counted (hsteps : Steps tree world crew last told) (hcounted : crew.Counted) :
    last.Counted := by
  induction hsteps with
  | refl => exact hcounted
  | head hstep _ ih => exact ih (hstep.counted hcounted)

def overJob (one : CommandRun) : Job :=
  ⟨one.command, one.transcript.calls, one.transcript.log,
    .ceased (.ofResult one.transcript.result)⟩

def finishedJob (one : CommandRun) : Job :=
  ⟨one.command, one.transcript.calls, one.transcript.log,
    .finished (.ofResult one.transcript.result)⟩

-- A job at work can go through the rest of its dialogue alone, whatever it comes to.
theorem steps_dialogue {rest : Dialogue (Except Failure String)}
    {transcript : Dialogue.Transcript (Except Failure String)}
    (hleave : Dialogue.MayLeave world rest transcript) (tree : FileTree) (group : SyncGroup)
    (before behind : List Job) (command : Command) (calls : List (Request × Reply)) (log : Log) :
    Steps tree world ⟨group, before ++ ⟨command, calls, log, .working rest⟩ :: behind⟩
      ⟨group, before ++ ⟨command, calls ++ transcript.calls, log ++ transcript.log,
        .ceased (.ofResult transcript.result)⟩ :: behind⟩ transcript.log := by
  induction hleave generalizing calls log with
  | done result =>
      simp only [List.append_nil]
      exact .head (.job before .cease) .refl
  | @say entry _ _ _ ih =>
      have hrest := ih calls (log ++ [entry])
      rw [List.append_assoc] at hrest
      exact .head (.job before .say) hrest
  | @ask request _ reply _ hreply _ ih =>
      have hrest := ih (calls ++ [(request, reply)]) log
      rw [List.append_assoc] at hrest
      exact .head (.job before .ask) (.head (.job before (.hear hreply)) hrest)

theorem steps_work {runs : WaveRun}
    (hcomplete : ∀ one ∈ runs,
      Dialogue.MayLeave world (one.command.dialogue tree) one.transcript)
    (group : SyncGroup) (before : List Job) :
    Steps tree world ⟨group, before ++ runs.commands.map .ofCommand⟩
      ⟨group, before ++ runs.map overJob⟩ (runs.flatMap (·.transcript.log)) := by
  induction runs generalizing before with
  | nil => exact .refl
  | cons one runs ih =>
      obtain ⟨hleave, hrest⟩ := List.forall_mem_cons.mp hcomplete
      have hone := steps_dialogue hleave tree group before
        ((WaveRun.commands runs).map .ofCommand) one.command [] []
      have hmore := ih hrest (before ++ [overJob one])
      rw [List.append_assoc, List.append_assoc] at hmore
      have hall := Steps.head (.job before .start) (hone.trans hmore)
      exact hall

theorem task_eq (one : CommandRun) :
    one.task = ⟨one.command.label, .ofResult one.transcript.result⟩ := by
  unfold CommandRun.task
  cases one.transcript.result <;> rfl

-- A job that is over can finish wherever it stands.
theorem steps_finish_one (group : SyncGroup) (before behind : List Job) (one : CommandRun) :
    Steps tree world ⟨group, before ++ overJob one :: behind⟩
      ⟨(one.task.finish group).1, before ++ finishedJob one :: behind⟩
      (one.task.finish group).2 := by
  rw [Task.finish_eq, ← List.append_nil (_ ++ _ : Log), List.append_assoc]
  simp only [task_eq]
  exact .head (.job before .record) (.head (.job before .leave) .refl)

theorem steps_finish (group : SyncGroup) (before behind : List Job) (runs : WaveRun) :
    Steps tree world ⟨group, before ++ (runs.map overJob ++ behind)⟩
      ⟨(Runner.finishAll group (runs.map (·.task))).1,
        before ++ (runs.map finishedJob ++ behind)⟩
      (Runner.finishAll group (runs.map (·.task))).2 := by
  induction runs generalizing group before with
  | nil => exact .refl
  | cons one runs ih =>
      have hone : Steps tree world ⟨group, before ++ overJob one :: (runs.map overJob ++ behind)⟩
          ⟨(one.task.finish group).1, before ++ finishedJob one :: (runs.map overJob ++ behind)⟩
          (one.task.finish group).2 := steps_finish_one group before _ one
      have hrest := ih (one.task.finish group).1 (before ++ [finishedJob one])
      rw [List.append_assoc, List.append_assoc] at hrest
      exact hone.trans hrest

-- The group of a crew of so many tasks none of which has ended.
def groupOf (commands : List Command) : SyncGroup :=
  commands.foldl (fun group _ => group.increment) .empty

theorem foldl_spawn (crew : Crew) (commands : List Command) :
    commands.foldl spawn crew =
      ⟨commands.foldl (fun group _ => group.increment) crew.group,
        crew.jobs ++ commands.map .ofCommand⟩ := by
  induction commands generalizing crew with
  | nil => simp
  | cons command commands ih => simp [ih, spawn]

theorem counted_foldl_spawn (crew : Crew) (hcounted : crew.Counted) (commands : List Command) :
    (commands.foldl spawn crew).Counted := by
  induction commands generalizing crew with
  | nil => exact hcounted
  | cons command commands ih => exact ih _ (hcounted.spawn command)

def ended (runs : WaveRun) : SyncGroup × Log :=
  Runner.finishAll (groupOf runs.commands) (runs.map (·.task))

-- The tasks of a crew can do all their work first and end then.
theorem steps_all {runs : WaveRun}
    (hcomplete : ∀ one ∈ runs,
      Dialogue.MayLeave world (one.command.dialogue tree) one.transcript) :
    Steps tree world (runs.commands.foldl spawn .empty)
      ⟨(ended runs).1, runs.map finishedJob⟩
      (runs.flatMap (·.transcript.log) ++ (ended runs).2) := by
  have hfinish : Steps tree world _ _ _ := steps_finish (groupOf runs.commands) [] [] runs
  simp only [List.append_nil, List.nil_append] at hfinish
  rw [foldl_spawn]
  exact (steps_work hcomplete (groupOf runs.commands) []).trans hfinish

theorem unfinished_finishedJob (group : SyncGroup) (runs : WaveRun) :
    (Crew.mk group (runs.map finishedJob)).unfinished = [] := by
  rw [unfinished, List.filter_eq_nil_iff]
  intro job hjob
  obtain ⟨one, _, rfl⟩ := List.mem_map.mp hjob
  exact Bool.noConfusion

-- When all jobs of a crew are finished, nobody counts any more.
theorem isDrained_of_steps {runs : WaveRun} {group : SyncGroup} {told : Log}
    (hsteps : Steps tree world (runs.commands.foldl spawn .empty)
      ⟨group, runs.map finishedJob⟩ told) : group.isDrained = true := by
  have hcounted := hsteps.counted (counted_foldl_spawn .empty counted_empty runs.commands)
  rw [Counted, unfinished_finishedJob] at hcounted
  exact SyncGroup.isDrained_iff.mpr hcounted

theorem runs_finishedJob (group : SyncGroup) (runs : WaveRun) :
    (Crew.mk group (runs.map finishedJob)).runs = runs := by
  rw [Crew.runs, List.map_map]
  conv_rhs => rw [← List.map_id runs]
  refine List.map_congr_left fun one _ => ?_
  simp only [Function.comp_apply, Job.run, Job.ending?, finishedJob, Option.getD_some,
    Job.result_taskEnding, id_eq]

end Crew

theorem Runner.foldl_spawn (runner : Runner) (runs : WaveRun) :
    runs.foldl (fun runner run => runner.spawn run.task) runner =
      ⟨runs.commands.foldl (fun group _ => group.increment) runner.group,
        runner.waiting ++ runs.map (·.task)⟩ := by
  induction runs generalizing runner with
  | nil => simp [WaveRun.commands]
  | cons one runs ih =>
      rw [List.foldl_cons, ih]
      simp [spawn, WaveRun.commands]

-- The run of a wave, task after task.
def Wave.runs (wave : Wave) (tree : FileTree) (network : Network) : WaveRun :=
  wave.commands.map (CommandRun.of tree network)

theorem Wave.commands_runs (wave : Wave) (tree : FileTree) (network : Network) :
    (wave.runs tree network).commands = wave.commands := by
  rw [WaveRun.commands, runs, List.map_map]
  exact List.map_id wave.commands

theorem Wave.mayLeave_runs (hnetwork : ∀ request, world.mayReply request (network request))
    (wave : Wave) (tree : FileTree) : ∀ one ∈ wave.runs tree network,
      Dialogue.MayLeave world (one.command.dialogue tree) one.transcript := by
  intro one hone
  obtain ⟨command, _, rfl⟩ := List.mem_map.mp hone
  exact Dialogue.mayLeave_of_network hnetwork _

theorem Wave.run_eq (wave : Wave) (tree : FileTree) (network : Network) :
    wave.run tree network = (wave.runs tree network,
      (Crew.ended (wave.runs tree network)).1.result.2,
      wave.notes ++ ((wave.runs tree network).flatMap (·.transcript.log) ++
        (Crew.ended (wave.runs tree network)).2)) := by
  simp only [Wave.run, Runner.foldl_spawn, Runner.drain, Runner.wait, List.append_assoc]
  rfl

namespace ClusterCommand

variable {command : ClusterCommand}

theorem steps_latest {control : Control} {crew next : Crew} {earlier : List Crew}
    {phases : List Phase} {log told : Log} (hsteps : crew.Steps tree world next told) :
    Relation.ReflTransGen (command.Step tree world) ⟨control, crew :: earlier, phases, log⟩
      ⟨control, next :: earlier, phases, log ++ told⟩ := by
  induction hsteps generalizing log with
  | refl =>
      rw [List.append_nil]
  | head hstep _ ih =>
      rw [← List.append_assoc]
      exact .head (.work [] hstep) ih

theorem steps_spawn (commands : List Command) {steps : List PlanStep} {crew : Crew}
    {earlier : List Crew} {phases : List Phase} {log : Log} :
    Relation.ReflTransGen (command.Step tree world)
      ⟨.starting commands steps, crew :: earlier, phases, log⟩
      ⟨.starting [] steps, commands.foldl Crew.spawn crew :: earlier, phases, log⟩ := by
  induction commands generalizing crew with
  | nil => exact .refl
  | cons fresh commands ih => exact .head .spawn ih

-- The tasks of a wave can wait until all of them are started.
theorem steps_wave {crew : Crew} {told : Log} (command : ClusterCommand) (wave : Wave)
    (hcrew : (wave.commands.foldl Crew.spawn .empty).Steps tree world crew told)
    (steps : List PlanStep) (crews : List Crew) (phases : List Phase) (log : Log) :
    Relation.ReflTransGen (command.Step tree world)
      ⟨.between (.wave wave :: steps), crews, phases, log⟩
      ⟨.draining steps, crew :: crews, phases ++ [.dispatching, .draining],
        log ++ (wave.notes ++ told)⟩ := by
  refine .head .enter ((steps_spawn wave.commands).trans (.head .await ?_))
  rw [List.append_assoc, ← List.append_assoc log]
  exact steps_latest hcrew

theorem steps_runSteps (hnetwork : ∀ request, world.mayReply request (network request))
    (command : ClusterCommand) (tree : FileTree) (steps : List PlanStep) (crews : List Crew)
    (phases : List Phase) (log : Log) :
    let run := Plan.runSteps tree network (command.plan tree).outcome steps
    ∃ state, Relation.ReflTransGen (command.Step tree world)
        ⟨.between steps, crews, phases, log⟩ state ∧
      state.run? = some ⟨phases ++ run.phases ++ [.closing run.result], runsOf crews ++ run.waves,
        log ++ run.log ++ [command.verdict run.result], run.result⟩ := by
  induction steps generalizing crews phases log with
  | nil =>
      refine ⟨_, .single .finish, ?_⟩
      simp [close_eq, ExecutionState.run?, Plan.runSteps, runsOf]
  | cons step steps ih =>
      cases step with
      | note entry =>
          obtain ⟨state, hsteps, hrun⟩ := ih crews phases (log ++ [entry])
          refine ⟨state, .head .tell hsteps, hrun.trans ?_⟩
          simp [Plan.runSteps]
      | wave wave =>
          have hcrew := Crew.steps_all (wave.mayLeave_runs hnetwork tree)
          rw [wave.commands_runs] at hcrew
          have hdrained := Crew.isDrained_of_steps (wave.commands_runs tree network ▸ hcrew)
          have hwave := steps_wave command wave hcrew steps crews phases log
          cases hended : (Crew.ended (wave.runs tree network)).1.result with
          | mk group result =>
              cases result with
              | error failure =>
                  refine ⟨_, hwave.tail (.giveUp hdrained hended), ?_⟩
                  simp [close_eq, ExecutionState.run?, Plan.runSteps, Wave.run_eq, hended, runsOf,
                    Crew.runs_finishedJob]
              | ok =>
                  obtain ⟨state, hsteps, hrun⟩ := ih _ _ _
                  refine ⟨state, (hwave.tail (.goOn hdrained hended)).trans hsteps, hrun.trans ?_⟩
                  simp [Plan.runSteps, Wave.run_eq, hended, runsOf, Crew.runs_finishedJob]

-- Running a command is one of its executions.
theorem mayLeave_run (hnetwork : ∀ request, world.mayReply request (network request))
    (command : ClusterCommand) (tree : FileTree) :
    command.MayLeave tree world (command.run tree network) := by
  obtain ⟨state, hsteps, hrun⟩ := steps_runSteps hnetwork command tree
    (command.plan tree).steps [] [.resolvingTargets] []
  refine ⟨state, hsteps, hrun.trans ?_⟩
  simp only [run, Plan.run]
  generalize Plan.runSteps tree network (command.plan tree).outcome (command.plan tree).steps = left
  cases left.result <;> simp [verdict, Phase.closing, runsOf]

end ClusterCommand

end IndexFleet
