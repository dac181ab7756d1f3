import IndexFleet.Proofs.Execution.Invariant

namespace IndexFleet

variable {tree : FileTree} {world : World}

def CommandRun.failure? (run : CommandRun) : Option Failure :=
  match run.transcript.result with
  | .ok _ => none
  | .error failure => some failure

theorem CommandRun.failure?_eq_none_iff {run : CommandRun} :
    run.failure? = none ↔ ∃ answer, run.transcript.result = .ok answer := by
  unfold failure?
  cases run.transcript.result <;> simp

namespace WaveRun

def failures (wave : WaveRun) : List Failure := wave.filterMap (·.failure?)

def commands (wave : WaveRun) : List Command := wave.map (·.command)

theorem failures_eq_nil_iff {wave : WaveRun} :
    wave.failures = [] ↔ ∀ one ∈ wave, ∃ answer, one.transcript.result = .ok answer := by
  rw [failures, List.filterMap_eq_nil_iff]
  exact forall₂_congr fun one _ => CommandRun.failure?_eq_none_iff

theorem mem_failures {wave : WaveRun} {failure : Failure} :
    failure ∈ wave.failures ↔ ∃ one ∈ wave, one.transcript.result = .error failure := by
  rw [failures, List.mem_filterMap]
  refine exists_congr fun one => and_congr_right fun _ => ?_
  unfold CommandRun.failure?
  cases one.transcript.result <;> simp

end WaveRun

namespace Job

-- What is done of a job is the beginning of what its command may do, and is all of it when the job
-- is over.
def IsTraced (tree : FileTree) (world : World) (job : Job) : Prop :=
  match job.stage with
  | .counted => job.calls = [] ∧ job.log = []
  | .working rest => ∀ transcript, Dialogue.MayLeave world rest transcript →
      Dialogue.MayLeave world (job.command.dialogue tree)
        ((Dialogue.Transcript.mk job.calls job.log ()).append transcript)
  | .asking request next => ∀ transcript, Dialogue.MayLeave world (.ask request next) transcript →
      Dialogue.MayLeave world (job.command.dialogue tree)
        ((Dialogue.Transcript.mk job.calls job.log ()).append transcript)
  | .ceased ending | .recorded ending | .finished ending => ∃ result, ending = .ofResult result ∧
      Dialogue.MayLeave world (job.command.dialogue tree) ⟨job.calls, job.log, result⟩

theorem isTraced_ofCommand (command : Command) : (ofCommand command).IsTraced tree world :=
  ⟨rfl, rfl⟩

variable {group after : SyncGroup} {job next : Job} {told : Log}

-- A panic has broken a job off.
def IsBroken (world : World) (job : Job) : Prop := world.mayPanic ∧ job.ending? = some .panicked

theorem Step.isTraced_or_isBroken (hstep : job.Step tree world group after next told)
    (htraced : job.IsTraced tree world) : next.IsTraced tree world ∨ next.IsBroken world := by
  cases hstep with
  | start =>
      obtain ⟨rfl, rfl⟩ := htraced
      exact .inl fun transcript hleave => hleave
  | say =>
      refine .inl fun transcript hleave => ?_
      simpa [Dialogue.Transcript.append] using htraced _ (.say hleave)
  | ask => exact .inl htraced
  | hear hreply =>
      refine .inl fun transcript hleave => ?_
      simpa [Dialogue.Transcript.append] using htraced _ (.ask hreply hleave)
  | cease =>
      refine .inl ⟨_, rfl, ?_⟩
      simpa [Dialogue.Transcript.append] using htraced _ (.done _)
  | panic hpanic => exact .inr ⟨hpanic, rfl⟩
  | record => exact .inl htraced
  | leave => exact .inl htraced

theorem Step.isBroken (hstep : job.Step tree world group after next told)
    (hbroken : job.IsBroken world) : next.IsBroken world := by
  cases hstep with
  | record | leave => exact hbroken
  | start | say | ask | hear | cease | panic => exact nomatch hbroken.2

theorem IsBroken.result_run (hbroken : job.IsBroken world) :
    job.run.transcript.result = .error (.taskPanicked job.command.label) := by
  simp only [run, hbroken.2, Option.getD_some]
  rfl

theorem result_taskEnding (job : Job) (result : Except Failure String) :
    (job.taskEnding (.ofResult result)).result = result := by
  cases result <;> rfl

theorem IsTraced.mayLeave_run (htraced : job.IsTraced tree world)
    (hfinished : job.isUnfinished = false) :
    Dialogue.MayLeave world (job.run.command.dialogue tree) job.run.transcript := by
  obtain ⟨command, calls, log, stage⟩ := job
  cases stage with
  | finished ending =>
      obtain ⟨result, rfl, hleave⟩ := htraced
      simp only [run, ending?, Option.getD_some, result_taskEnding]
      exact hleave
  | counted | working | asking | ceased | recorded => cases hfinished

-- A finished job has brought the failure that it came to.
theorem failure?_run (hfinished : job.isUnfinished = false) : job.run.failure? = job.failure? := by
  obtain ⟨command, calls, log, stage⟩ := job
  cases stage with
  | finished ending => cases ending <;> rfl
  | counted | working | asking | ceased | recorded => cases hfinished

end Job

namespace Crew

variable {crew next : Crew} {told : Log}

def IsTraced (tree : FileTree) (world : World) (crew : Crew) : Prop :=
  ∀ job ∈ crew.jobs, job.IsTraced tree world

theorem Quiet.isUnfinished_eq_false (hquiet : crew.Quiet) {job : Job} (hjob : job ∈ crew.jobs) :
    job.isUnfinished = false := by
  by_contra hbusy
  have hmem : job ∈ crew.unfinished :=
    List.mem_filter.mpr ⟨hjob, Bool.of_not_eq_false hbusy⟩
  rw [hquiet.unfinished] at hmem
  exact nomatch hmem

-- When all tasks are finished, the failures of their runs are those that they have brought.
theorem Quiet.failures_runs (hquiet : crew.Quiet) : crew.runs.failures = crew.brought := by
  rw [WaveRun.failures, runs, List.filterMap_map, brought]
  refine List.filterMap_congr fun job hjob => ?_
  exact Job.failure?_run (hquiet.isUnfinished_eq_false hjob)

theorem Quiet.mayLeave_runs (hquiet : crew.Quiet) (htraced : crew.IsTraced tree world) :
    ∀ run ∈ crew.runs, Dialogue.MayLeave world (run.command.dialogue tree) run.transcript := by
  intro run hrun
  obtain ⟨job, hjob, rfl⟩ := List.mem_map.mp hrun
  exact (htraced job hjob).mayLeave_run (hquiet.isUnfinished_eq_false hjob)

theorem commands_runs (crew : Crew) : crew.runs.commands = crew.commands := by
  rw [WaveRun.commands, runs, List.map_map, commands]
  rfl

end Crew

def Run.commands (run : Run) : List (List Command) := run.waves.map (·.commands)

-- How a run comes out of a plan: no task fails and the plan is carried out, or the run ends with a
-- failure of the first wave in which a task fails.
inductive Run.Follows (plan : Plan) (run : Run) : Prop
  | whole (hcommands : run.commands = plan.waves) (hclean : ∀ wave ∈ run.waves, wave.failures = [])
      (hresult : run.result = plan.outcome)
  | cut {earlier : List WaveRun} {last : WaveRun} {failure : Failure}
      (hcommands : run.commands <+: plan.waves) (hwaves : run.waves = earlier ++ [last])
      (hclean : ∀ wave ∈ earlier, wave.failures = []) (hfailure : failure ∈ last.failures)
      (hresult : run.result = .error failure)

namespace Run

variable {plan : Plan} {run : Run}

theorem Follows.commands_prefix (h : run.Follows plan) : run.commands <+: plan.waves := by
  cases h with
  | whole hcommands => exact hcommands ▸ List.prefix_rfl
  | cut hcommands => exact hcommands

-- Without a failing task the plan is carried out.
theorem Follows.of_clean (h : run.Follows plan)
    (hclean : ∀ wave ∈ run.waves, wave.failures = []) :
    run.commands = plan.waves ∧ run.result = plan.outcome := by
  cases h with
  | whole hcommands _ hresult => exact ⟨hcommands, hresult⟩
  | @cut earlier last _ _ hwaves _ hfailure _ =>
      have hlast : last ∈ run.waves := hwaves ▸ List.mem_append_right _ List.mem_cons_self
      rw [hclean last hlast] at hfailure
      exact nomatch hfailure

end Run

namespace ExecutionState

variable {command : ClusterCommand} {state next : ExecutionState}

def IsTraced (tree : FileTree) (world : World) (state : ExecutionState) : Prop :=
  ∀ crew ∈ state.crews, crew.IsTraced tree world

theorem isTraced_or_isBroken_of_reachable (hreach : command.Reachable tree world state) :
    ∀ crew ∈ state.crews, ∀ job ∈ crew.jobs, job.IsTraced tree world ∨ job.IsBroken world :=
  forall_jobs_of_reachable (fun fresh => .inl (Job.isTraced_ofCommand fresh))
    (fun hstep hjob => hjob.elim hstep.isTraced_or_isBroken fun hbroken =>
      .inr (hstep.isBroken hbroken)) hreach

theorem isTraced_of_reachable (hcalm : ¬world.mayPanic)
    (hreach : command.Reachable tree world state) : state.IsTraced tree world := by
  intro crew hcrew job hjob
  have htraced := isTraced_or_isBroken_of_reachable hreach crew hcrew job hjob
  exact htraced.resolve_right fun hbroken => hcalm hbroken.1

end ExecutionState

namespace ClusterCommand

variable {command : ClusterCommand} {run : Run}

def runsOf (crews : List Crew) : List WaveRun := crews.reverse.map (·.runs)

theorem mem_runsOf {crews : List Crew} {wave : WaveRun} :
    wave ∈ runsOf crews ↔ ∃ crew ∈ crews, crew.runs = wave := by
  simp [runsOf]

theorem commands_runsOf (crews : List Crew) :
    (runsOf crews).map (·.commands) = (crews.map (·.commands)).reverse := by
  rw [runsOf, List.map_map, ← List.map_reverse]
  exact List.map_congr_left fun crew _ => crew.commands_runs

theorem runsOf_cons (crew : Crew) (crews : List Crew) :
    runsOf (crew :: crews) = runsOf crews ++ [crew.runs] := by
  simp [runsOf]

theorem failures_of_clean {crews : List Crew} (hclean : ∀ crew ∈ crews, crew.Clean) :
    ∀ wave ∈ runsOf crews, wave.failures = [] := by
  intro wave hwave
  obtain ⟨crew, hcrew, rfl⟩ := mem_runsOf.mp hwave
  exact (hclean crew hcrew).failures_runs.trans (hclean crew hcrew).brought

theorem MayLeave.exists_returned (h : command.MayLeave tree world run) :
    ∃ result crews phases log, command.Reachable tree world ⟨.returned result, crews, phases, log⟩ ∧
      run = ⟨phases, runsOf crews, log, result⟩ := by
  obtain ⟨⟨control, crews, phases, log⟩, hreach, hrun⟩ := h
  cases control with
  | returned result =>
      exact ⟨result, crews, phases, log, hreach, (Option.some.inj hrun).symm⟩
  | between | starting | draining => exact nomatch hrun

-- However the tasks take their turns, a run comes out of the plan of its command.
theorem MayLeave.follows (h : command.MayLeave tree world run) :
    run.Follows (command.plan tree) := by
  obtain ⟨result, crews, phases, log, hreach, rfl⟩ := h.exists_returned
  have hcommands := commands_runsOf crews
  rcases (ExecutionState.followsPlan_of_reachable hreach).of_returned.2 with
    ⟨hresult, hleft, hclean⟩ |
    ⟨failure, rest, crew, earlier, hresult, rfl, hquiet, hfailure, hleft, hclean⟩
  · exact .whole (hcommands.trans hleft.waves_eq.symm) (failures_of_clean hclean) hresult
  · refine .cut ?_ (runsOf_cons crew earlier) (failures_of_clean hclean)
      (hquiet.failures_runs ▸ hfailure) hresult
    rw [Run.commands, hcommands]
    exact hleft.prefix_waves

theorem MayLeave.planned (h : command.MayLeave tree world run) {wave : WaveRun}
    (hwave : wave ∈ run.waves) : wave.commands ∈ (command.plan tree).waves :=
  h.follows.commands_prefix.subset (List.mem_map_of_mem hwave)

-- Every task of a run has done what its command may do, unless it has panicked.
theorem MayLeave.complete_or_panicked (h : command.MayLeave tree world run) :
    ∀ wave ∈ run.waves, ∀ one ∈ wave,
      Dialogue.MayLeave world (one.command.dialogue tree) one.transcript ∨
        world.mayPanic ∧ one.transcript.result = .error (.taskPanicked one.command.label) := by
  obtain ⟨result, crews, phases, log, hreach, rfl⟩ := h.exists_returned
  have htraced := ExecutionState.isTraced_or_isBroken_of_reachable hreach
  have hquiet : ∀ crew ∈ crews, crew.Quiet := by
    rcases (ExecutionState.followsPlan_of_reachable hreach).of_returned.2 with
      ⟨_, _, hclean⟩ | ⟨failure, rest, crew, earlier, _, rfl, hquiet, _, _, hclean⟩
    · exact fun crew hcrew => (hclean crew hcrew).toQuiet
    · exact List.forall_mem_cons.mpr ⟨hquiet, fun crew hcrew => (hclean crew hcrew).toQuiet⟩
  intro wave hwave one hone
  obtain ⟨crew, hcrew, rfl⟩ := mem_runsOf.mp hwave
  obtain ⟨job, hjob, rfl⟩ := List.mem_map.mp hone
  rcases htraced crew hcrew job hjob with hjobs | hbroken
  · exact .inl (hjobs.mayLeave_run ((hquiet crew hcrew).isUnfinished_eq_false hjob))
  · exact .inr ⟨hbroken.1, hbroken.result_run⟩

theorem MayLeave.complete (hcalm : ¬world.mayPanic) (h : command.MayLeave tree world run) :
    ∀ wave ∈ run.waves, ∀ one ∈ wave,
      Dialogue.MayLeave world (one.command.dialogue tree) one.transcript :=
  fun wave hwave one hone => (h.complete_or_panicked wave hwave one hone).resolve_right
    fun hpanicked => hcalm hpanicked.1

-- A run goes through two phases for each of its waves, and its last one says how it ended.
theorem MayLeave.phases (h : command.MayLeave tree world run) :
    run.phases = Phase.lifecycle run.waves.length ++ [.closing run.result] := by
  obtain ⟨result, crews, phases, log, hreach, rfl⟩ := h.exists_returned
  have hlength : (runsOf crews).length = crews.length := by
    rw [runsOf, List.length_map, List.length_reverse]
  rw [hlength]
  exact (ExecutionState.followsPlan_of_reachable hreach).of_returned.1

end ClusterCommand

end IndexFleet
