import IndexFleet.Proofs.Execution.Course

namespace IndexFleet

variable {tree : FileTree} {world : World} {p : Entry → Bool}

-- A dialogue that never tells an entry of a kind, whatever it hears.
def Dialogue.Never {α : Type} (p : Entry → Bool) : Dialogue α → Prop
  | done _ => True
  | say entry next => p entry = false ∧ next.Never p
  | ask _ next => ∀ reply, (next reply).Never p

-- Entries of a kind that only the dispatcher tells, if anybody does.
structure Plan.Unsaid (plan : Plan) (tree : FileTree) (p : Entry → Bool) : Prop where
  dialogues : ∀ commands ∈ plan.waves, ∀ made ∈ commands, (made.dialogue tree).Never p
  notes : ∀ (task : Task), ∀ entry ∈ task.notes, p entry = false
  decrements : ∀ (group : SyncGroup), ∀ entry ∈ group.decrement.2, p entry = false

-- Whatever tasks tell when they end is that they failed, or that their group is miscounted.
theorem Plan.unsaid_of_dialogues {plan : Plan}
    (hdialogues : ∀ commands ∈ plan.waves, ∀ made ∈ commands, (made.dialogue tree).Never p)
    (hfailed : ∀ message, p (.error message) = false)
    (hignored : p (.warn "sync group decremented below zero, ignoring") = false) :
    plan.Unsaid tree p where
  dialogues := hdialogues
  notes task entry hentry := by
    unfold Task.notes at hentry
    split at hentry
    case h_1 => exact nomatch hentry
    all_goals
      rw [List.mem_singleton.mp hentry]
      exact hfailed _
  decrements group entry hentry := by
    unfold SyncGroup.decrement at hentry
    split at hentry
    case isTrue => exact (List.mem_singleton.mp hentry) ▸ hignored
    case isFalse => exact nomatch hentry

namespace Job

variable {group after : SyncGroup} {job next : Job} {told : Log} {plan : Plan}

def Never (tree : FileTree) (p : Entry → Bool) (job : Job) : Prop :=
  match job.stage with
  | .counted => (job.command.dialogue tree).Never p
  | .working rest => rest.Never p
  | .asking _ next => ∀ reply, (next reply).Never p
  | .ceased _ | .recorded _ | .finished _ => True

theorem Step.never (hunsaid : plan.Unsaid tree p) (hnever : job.Never tree p)
    (hstep : job.Step tree world group after next told) :
    next.Never tree p ∧ ∀ entry ∈ told, p entry = false := by
  have hsilent : ∀ entry ∈ ([] : Log), p entry = false := fun _ hentry => nomatch hentry
  cases hstep with
  | start => exact ⟨hnever, hsilent⟩
  | say => exact ⟨hnever.2, List.forall_mem_singleton.mpr hnever.1⟩
  | ask => exact ⟨hnever, hsilent⟩
  | hear => exact ⟨hnever _, hsilent⟩
  | cease => exact ⟨trivial, hsilent⟩
  | panic => exact ⟨trivial, hsilent⟩
  | record => exact ⟨trivial, hunsaid.notes _⟩
  | leave => exact ⟨trivial, hunsaid.decrements _⟩

end Job

namespace Crew

variable {crew next : Crew} {told : Log} {plan : Plan}

def Never (tree : FileTree) (p : Entry → Bool) (crew : Crew) : Prop :=
  ∀ job ∈ crew.jobs, job.Never tree p

theorem Never.spawn {command : Command} (hnever : crew.Never tree p)
    (hfresh : (command.dialogue tree).Never p) : (crew.spawn command).Never tree p := by
  intro job hjob
  rcases List.mem_append.mp hjob with hold | hnew
  · exact hnever job hold
  · exact List.mem_singleton.mp hnew ▸ hfresh

theorem Step.never (hunsaid : plan.Unsaid tree p) (hnever : crew.Never tree p)
    (hstep : crew.Step tree world next told) :
    next.Never tree p ∧ ∀ entry ∈ told, p entry = false := by
  cases hstep with
  | job before hjob =>
      simp only [Never, List.forall_mem_append, List.forall_mem_cons] at hnever ⊢
      obtain ⟨hbefore, hone, hbehind⟩ := hnever
      obtain ⟨hnext, htold⟩ := hjob.never hunsaid hone
      exact ⟨⟨hbefore, hnext, hbehind⟩, htold⟩

theorem Quiet.mayLeave_wave {wave : Wave} (hquiet : crew.Quiet)
    (htraced : crew.IsTraced tree world) (hcommands : crew.commands = wave.commands) :
    wave.MayLeave tree world crew.runs :=
  ⟨crew.commands_runs.trans hcommands, hquiet.mayLeave_runs htraced⟩

end Crew

namespace ExecutionState

variable {command : ClusterCommand} {state next : ExecutionState}

theorem never_of_reachable (hunsaid : (command.plan tree).Unsaid tree p)
    (hreach : command.Reachable tree world state) :
    ∀ crew ∈ state.crews, crew.Never tree p := by
  induction hreach with
  | refl => exact fun _ hcrew => nomatch hcrew
  | @tail state next hbefore hstep ih =>
      cases hstep with
      | tell => exact ih
      | await => exact ih
      | enter => exact List.forall_mem_cons.mpr ⟨fun _ hjob => (nomatch hjob), ih⟩
      | @spawn fresh commands steps crew earlier phases log =>
          obtain ⟨hcrew, hearlier⟩ := List.forall_mem_cons.mp ih
          have hfresh : (fresh.dialogue tree).Never p := by
            cases followsPlan_of_reachable hbefore with
            | starting _ _ hleft _ =>
                have hmem : crew.commands ++ fresh :: commands ∈ (command.plan tree).waves :=
                  hleft.prefix_waves.subset (List.mem_reverse.mpr List.mem_cons_self)
                exact hunsaid.dialogues _ hmem fresh (List.mem_append_right _ List.mem_cons_self)
          exact List.forall_mem_cons.mpr ⟨hcrew.spawn hfresh, hearlier⟩
      | goOn =>
          obtain ⟨hcrew, hearlier⟩ := List.forall_mem_cons.mp ih
          exact List.forall_mem_cons.mpr ⟨hcrew, hearlier⟩
      | giveUp =>
          obtain ⟨hcrew, hearlier⟩ := List.forall_mem_cons.mp ih
          rw [ClusterCommand.close_eq]
          exact List.forall_mem_cons.mpr ⟨hcrew, hearlier⟩
      | finish =>
          rw [ClusterCommand.close_eq]
          exact ih
      | work later hcrew =>
          simp only [List.forall_mem_append, List.forall_mem_cons] at ih ⊢
          obtain ⟨hlater, hone, hearlier⟩ := ih
          exact ⟨hlater, (hcrew.never hunsaid hone).1, hearlier⟩

end ExecutionState

namespace Plan

open ClusterCommand (runsOf)

variable {plan : Plan} {rest : List PlanStep} {waves : List WaveRun} {log told more : Log}

-- A log with what the dispatcher told: they agree on entries of which tasks tell none.
def Heard (plan : Plan) (tree : FileTree) (log told : Log) : Prop :=
  ∀ p, plan.Unsaid tree p → log.filter p = told.filter p

theorem Heard.append (hheard : plan.Heard tree log told) (more : Log) :
    plan.Heard tree (log ++ more) (told ++ more) := by
  intro p hunsaid
  rw [List.filter_append, List.filter_append, hheard p hunsaid]

theorem Heard.append_unsaid (hheard : plan.Heard tree log told)
    (hmore : ∀ p, plan.Unsaid tree p → ∀ entry ∈ more, p entry = false) :
    plan.Heard tree (log ++ more) told := by
  intro p hunsaid
  have hnone : more.filter p = [] := by
    rw [List.filter_eq_nil_iff]
    intro entry hentry
    simp [hmore p hunsaid entry hentry]
  rw [List.filter_append, hnone, List.append_nil, hheard p hunsaid]

-- With the steps that are left, every course of them completes a course of the plan.
def Reaches (plan : Plan) (tree : FileTree) (world : World) (rest : List PlanStep)
    (waves : List WaveRun) (told : Log) : Prop :=
  ∀ course, Course.Along tree world plan.outcome rest course →
    plan.MayTake tree world (course.after waves told)

theorem reaches_start (plan : Plan) : plan.Reaches tree world plan.steps [] [] :=
  fun _ hcourse => hcourse

theorem Reaches.note {entry : Entry}
    (h : plan.Reaches tree world (.note entry :: rest) waves told) :
    plan.Reaches tree world rest waves (told ++ [entry]) := by
  intro course hcourse
  have hmore := h _ (.note hcourse)
  rwa [Course.after_after, List.append_nil] at hmore

theorem Reaches.goOn {wave : Wave} {runs : WaveRun}
    (h : plan.Reaches tree world (.wave wave :: rest) waves told)
    (hruns : wave.MayLeave tree world runs) (hclean : runs.failures = []) :
    plan.Reaches tree world rest (waves ++ [runs]) (told ++ wave.notes) := by
  intro course hcourse
  have hmore := h _ (.goOn hruns hclean hcourse)
  rwa [Course.after_after] at hmore

theorem Reaches.giveUp {wave : Wave} {runs : WaveRun} {failure : Failure}
    (h : plan.Reaches tree world (.wave wave :: rest) waves told)
    (hruns : wave.MayLeave tree world runs) (hfailure : failure ∈ runs.failures) :
    plan.MayTake tree world ⟨waves ++ [runs], told ++ wave.notes, .error failure⟩ :=
  h _ (.giveUp hruns hfailure)

theorem Reaches.finish (h : plan.Reaches tree world [] waves told) :
    plan.MayTake tree world ⟨waves, told, plan.outcome⟩ := by
  have hall := h _ .done
  simpa only [Course.after, List.append_nil] using hall

end Plan

namespace ExecutionState

open ClusterCommand (runsOf runsOf_cons)

-- Where an execution stands on a course of its plan.
inductive OnCourse (command : ClusterCommand) (tree : FileTree) (world : World) :
    ExecutionState → Prop
  | between {rest : List PlanStep} {crews : List Crew} {phases : List Phase} {log told : Log}
      (hreaches : (command.plan tree).Reaches tree world rest (runsOf crews) told)
      (hheard : (command.plan tree).Heard tree log told) :
      OnCourse command tree world ⟨.between rest, crews, phases, log⟩
  | starting {wave : Wave} {commands : List Command} {rest : List PlanStep} {crew : Crew}
      {earlier : List Crew} {phases : List Phase} {log told : Log}
      (hreaches : (command.plan tree).Reaches tree world (.wave wave :: rest) (runsOf earlier) told)
      (hcommands : crew.commands ++ commands = wave.commands)
      (hheard : (command.plan tree).Heard tree log (told ++ wave.notes)) :
      OnCourse command tree world ⟨.starting commands rest, crew :: earlier, phases, log⟩
  | draining {wave : Wave} {rest : List PlanStep} {crew : Crew} {earlier : List Crew}
      {phases : List Phase} {log told : Log}
      (hreaches : (command.plan tree).Reaches tree world (.wave wave :: rest) (runsOf earlier) told)
      (hcommands : crew.commands = wave.commands)
      (hheard : (command.plan tree).Heard tree log (told ++ wave.notes)) :
      OnCourse command tree world ⟨.draining rest, crew :: earlier, phases, log⟩
  | returned {result : Except Failure Unit} {crews : List Crew} {phases : List Phase}
      {log told : Log}
      (htakes : (command.plan tree).MayTake tree world ⟨runsOf crews, told, result⟩)
      (hheard : (command.plan tree).Heard tree log (told ++ [command.verdict result])) :
      OnCourse command tree world ⟨.returned result, crews, phases, log⟩

variable {command : ClusterCommand} {state next : ExecutionState}

theorem OnCourse.step (hcalm : ¬world.mayPanic) (hreach : command.Reachable tree world state)
    (hstep : command.Step tree world state next) (h : OnCourse command tree world state) :
    OnCourse command tree world next := by
  have hfollows := followsPlan_of_reachable hreach
  have htraced := isTraced_of_reachable hcalm hreach
  cases hstep with
  | @tell entry =>
      cases h with
      | between hreaches hheard => exact .between hreaches.note (hheard.append [entry])
  | @enter wave =>
      cases h with
      | between hreaches hheard => exact .starting hreaches rfl (hheard.append wave.notes)
  | @spawn fresh commands steps crew earlier phases log =>
      cases h with
      | starting hreaches hcommands hheard =>
          refine .starting hreaches ?_ hheard
          rwa [Crew.commands_spawn, List.append_assoc, List.singleton_append]
  | await =>
      cases h with
      | starting hreaches hcommands hheard =>
          rw [List.append_nil] at hcommands
          exact .draining hreaches hcommands hheard
  | goOn hdrained hresult =>
      cases h with
      | draining hreaches hcommands hheard =>
          cases hfollows with
          | draining hcounted hslotted _ _ =>
              obtain ⟨hnone, rfl⟩ := SyncGroup.result_eq_ok hresult
              have hquiet := quiet_of_isDrained hcounted hdrained rfl
              have hruns := hquiet.mayLeave_wave (htraced _ List.mem_cons_self) hcommands
              have hclean := hquiet.failures_runs.trans (hslotted.of_none hnone)
              refine .between ?_ hheard
              rw [runsOf_cons]
              exact hreaches.goOn hruns hclean
  | giveUp hdrained hresult =>
      cases h with
      | draining hreaches hcommands hheard =>
          cases hfollows with
          | draining hcounted hslotted _ _ =>
              obtain ⟨hsome, rfl⟩ := SyncGroup.result_eq_error hresult
              have hquiet := quiet_of_isDrained hcounted hdrained rfl
              have hruns := hquiet.mayLeave_wave (htraced _ List.mem_cons_self) hcommands
              have hfailure := hquiet.failures_runs ▸ hslotted.of_some _ hsome
              rw [ClusterCommand.close_eq]
              refine .returned ?_ (hheard.append _)
              rw [runsOf_cons]
              exact hreaches.giveUp hruns hfailure
  | finish =>
      cases h with
      | between hreaches hheard =>
          rw [ClusterCommand.close_eq]
          exact .returned hreaches.finish (hheard.append _)
  | @work control later earlier crew after phases log told hcrew =>
      obtain ⟨rfl, hwave⟩ := hfollows.latest_of_step hcrew
      have hsilent : ∀ p, (command.plan tree).Unsaid tree p → ∀ entry ∈ told, p entry = false :=
        fun p hunsaid => (hcrew.never hunsaid
          (never_of_reachable hunsaid hreach crew List.mem_cons_self)).2
      cases h with
      | between | returned => exact nomatch hwave
      | starting hreaches hcommands hheard =>
          rw [← hcrew.commands_eq] at hcommands
          exact .starting hreaches hcommands (hheard.append_unsaid hsilent)
      | draining hreaches hcommands hheard =>
          rw [← hcrew.commands_eq] at hcommands
          exact .draining hreaches hcommands (hheard.append_unsaid hsilent)

theorem onCourse_of_reachable (hcalm : ¬world.mayPanic)
    (hreach : command.Reachable tree world state) : OnCourse command tree world state := by
  induction hreach with
  | refl => exact .between (Plan.reaches_start _) (fun _ _ => rfl)
  | tail hbefore hstep ih => exact ih.step hcalm hbefore hstep

end ExecutionState

namespace Crew

variable {runs : WaveRun}

theorem failure_groupOf (commands : List Command) : (groupOf commands).failure = none := by
  have hkeeps : ∀ group : SyncGroup,
      (commands.foldl (fun group _ => group.increment) group).failure = group.failure := by
    induction commands with
    | nil => exact fun _ => rfl
    | cons command commands ih => exact fun group => ih group.increment
  exact hkeeps .empty

theorem failure?_task (one : CommandRun) : one.task.failure? = one.failure? := by
  rw [task_eq, CommandRun.failure?]
  cases one.transcript.result <;> rfl

theorem exists_steps_of_clean
    (hcomplete : ∀ one ∈ runs,
      Dialogue.MayLeave world (one.command.dialogue tree) one.transcript)
    (hclean : runs.failures = []) :
    ∃ group told, Steps tree world (runs.commands.foldl spawn .empty)
      ⟨group, runs.map finishedJob⟩ told ∧ group.failure = none := by
  refine ⟨_, _, steps_all hcomplete, ?_⟩
  have hnone : (runs.map (·.task)).findSome? (·.failure?) = none := by
    rw [List.findSome?_eq_none_iff]
    intro task htask
    obtain ⟨one, hone, rfl⟩ := List.mem_map.mp htask
    rw [failure?_task]
    exact List.filterMap_eq_nil_iff.mp hclean one hone
  rw [ended, Runner.failure_finishAll, failure_groupOf, hnone, Option.or_none]

-- Any of the failures of a crew can be the first one that is recorded.
theorem exists_steps_of_failure {failure : Failure}
    (hcomplete : ∀ one ∈ runs,
      Dialogue.MayLeave world (one.command.dialogue tree) one.transcript)
    (hfailure : failure ∈ runs.failures) :
    ∃ group told, Steps tree world (runs.commands.foldl spawn .empty)
      ⟨group, runs.map finishedJob⟩ told ∧ group.failure = some failure := by
  obtain ⟨first, hfirst, hbrings⟩ := List.mem_filterMap.mp hfailure
  obtain ⟨left, right, rfl⟩ := List.append_of_mem hfirst
  obtain ⟨start, hstart, hnone⟩ : ∃ start : SyncGroup,
      (WaveRun.commands (left ++ first :: right)).foldl spawn .empty =
        ⟨start, (WaveRun.commands (left ++ first :: right)).map .ofCommand⟩ ∧
      start.failure = none :=
    ⟨_, foldl_spawn .empty _, failure_groupOf _⟩
  have hwork := steps_work hcomplete start []
  simp only [List.nil_append, List.map_append, List.map_cons] at hwork
  -- the one that brings the failure finishes before all others
  let marked := (first.task.finish start).1
  let most := (Runner.finishAll marked (left.map (·.task))).1
  have hone : Steps tree world _ _ _ :=
    steps_finish_one start (left.map overJob) (right.map overJob) first
  have hleft : Steps tree world _ _ _ :=
    steps_finish marked [] (finishedJob first :: right.map overJob) left
  have hright : Steps tree world _ _ _ :=
    steps_finish most (left.map finishedJob ++ [finishedJob first]) [] right
  simp only [List.nil_append, List.append_nil, List.append_assoc, List.singleton_append]
    at hleft hright
  have hall := hwork.trans (hone.trans (hleft.trans hright))
  rw [hstart, List.map_append (f := finishedJob), List.map_cons (f := finishedJob)]
  refine ⟨_, _, hall, ?_⟩
  have hmarked : marked.failure = some failure := by
    rw [Runner.failure_finish, hnone, Crew.failure?_task, hbrings, Option.none_or]
  rw [Runner.failure_finishAll, Runner.failure_finishAll, hmarked, Option.some_or, Option.some_or]

end Crew

namespace ClusterCommand

variable {command : ClusterCommand} {course : Course}

theorem steps_along {steps : List PlanStep}
    (h : Course.Along tree world (command.plan tree).outcome steps course) (crews : List Crew)
    (phases : List Phase) (log : Log) :
    ∃ finished phases' log', runsOf finished = runsOf crews ++ course.waves ∧
      Relation.ReflTransGen (command.Step tree world) ⟨.between steps, crews, phases, log⟩
        ⟨.returned course.result, finished, phases', log'⟩ := by
  induction h generalizing crews phases log with
  | done =>
      have hend : command.Step tree world ⟨.between [], crews, phases, log⟩ _ := .finish
      rw [close_eq] at hend
      exact ⟨crews, _, _, (List.append_nil _).symm, .single hend⟩
  | note _ ih =>
      obtain ⟨finished, phases', log', hruns, hsteps⟩ := ih crews phases (log ++ [_])
      exact ⟨finished, phases', log', hruns, .head .tell hsteps⟩
  | @goOn wave runs rest course hruns hclean _ ih =>
      obtain ⟨group, told, hcrew, hnone⟩ := Crew.exists_steps_of_clean hruns.complete hclean
      have hdrained := Crew.isDrained_of_steps hcrew
      rw [hruns.commands] at hcrew
      have hwave := steps_wave command wave hcrew rest crews phases log
      have hresult : group.result = ({ group with failure := none }, .ok ()) := by
        simp [SyncGroup.result, SyncGroup.take, hnone]
      obtain ⟨finished, phases', log', hfinished, hsteps⟩ := ih _ _ _
      refine ⟨finished, phases', log', ?_, (hwave.tail (.goOn hdrained hresult)).trans hsteps⟩
      rw [hfinished, runsOf_cons, Crew.runs_finishedJob, List.append_assoc]
      rfl
  | @giveUp wave runs rest failure hruns hfailure =>
      obtain ⟨group, told, hcrew, hsome⟩ := Crew.exists_steps_of_failure hruns.complete hfailure
      have hdrained := Crew.isDrained_of_steps hcrew
      rw [hruns.commands] at hcrew
      have hwave := steps_wave command wave hcrew rest crews phases log
      have hresult : group.result = ({ group with failure := none }, .error failure) := by
        simp [SyncGroup.result, SyncGroup.take, hsome]
      have hend := hwave.tail (.giveUp hdrained hresult)
      rw [close_eq] at hend
      refine ⟨_, _, _, ?_, hend⟩
      rw [runsOf_cons, Crew.runs_finishedJob]

-- Every execution without panics takes a course of its plan. What the tasks tell comes in between.
theorem MayLeave.takes {run : Run} (hcalm : ¬world.mayPanic)
    (hrun : command.MayLeave tree world run) :
    ∃ course, (command.plan tree).MayTake tree world course ∧ run.waves = course.waves ∧
      run.result = course.result ∧
      (command.plan tree).Heard tree run.log (course.told ++ [command.verdict run.result]) := by
  obtain ⟨result, crews, phases, log, hreach, rfl⟩ := hrun.exists_returned
  cases ExecutionState.onCourse_of_reachable hcalm hreach with
  | returned htakes hheard => exact ⟨_, htakes, rfl, rfl, hheard⟩

-- Every course of a plan is taken by an execution.
theorem exists_mayLeave (h : (command.plan tree).MayTake tree world course) :
    ∃ run, command.MayLeave tree world run ∧ run.waves = course.waves ∧
      run.result = course.result := by
  obtain ⟨finished, phases, log, hruns, hsteps⟩ := steps_along h [] [.resolvingTargets] []
  refine ⟨⟨phases, runsOf finished, log, course.result⟩, ⟨_, hsteps, rfl⟩, ?_, rfl⟩
  rw [hruns]
  rfl

end ClusterCommand

end IndexFleet
