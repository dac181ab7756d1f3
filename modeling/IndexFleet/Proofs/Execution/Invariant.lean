import IndexFleet.Proofs.Execution
import IndexFleet.Proofs.Plan

namespace IndexFleet

variable {tree : FileTree} {world : World}

namespace Job

variable {group after : SyncGroup} {job next : Job} {told : Log}

theorem Step.isUnfinished (h : job.Step tree world group after next told) :
    job.isUnfinished = true := by
  cases h <;> rfl

theorem Step.command_eq (h : job.Step tree world group after next told) :
    next.command = job.command := by
  cases h <;> rfl

-- A job stops counting when it finishes, and then only.
theorem Step.outstanding_eq (h : job.Step tree world group after next told) :
    after.outstanding = if next.isUnfinished then group.outstanding else group.outstanding - 1 := by
  cases h with
  | record => exact Task.outstanding_recordIn _ group
  | leave => exact group.outstanding_decrement
  | start | say | ask | hear | cease | panic => rfl

-- A step brings no failure to the group, or the first one of its job.
theorem Step.failure_eq (h : job.Step tree world group after next told) :
    (next.failure? = job.failure? ∧ after.failure = group.failure) ∨
      (job.failure? = none ∧ after.failure = group.failure.or next.failure?) := by
  cases h with
  | record => exact .inr ⟨rfl, Task.failure_recordIn _ group⟩
  | leave => exact .inl ⟨rfl, group.failure_decrement⟩
  | start | say | ask | hear | cease | panic => exact .inl ⟨rfl, rfl⟩

end Job

namespace Crew

variable {crew next : Crew} {told : Log}

def Counted (crew : Crew) : Prop := crew.group.outstanding = crew.unfinished.length

def brought (crew : Crew) : List Failure := crew.jobs.filterMap (·.failure?)

-- A group keeps one of the failures that were brought to it, if there is any.
structure Slotted (crew : Crew) : Prop where
  of_some : ∀ failure, crew.group.failure = some failure → failure ∈ crew.brought
  of_none : crew.group.failure = none → crew.brought = []

structure Quiet (crew : Crew) : Prop where
  counted : crew.Counted
  unfinished : crew.unfinished = []

structure Clean (crew : Crew) : Prop extends Quiet crew where
  brought : crew.brought = []

theorem counted_empty : empty.Counted := rfl

theorem slotted_empty : empty.Slotted :=
  ⟨fun _ hfailure => (nomatch hfailure), fun _ => rfl⟩

theorem Counted.spawn (h : crew.Counted) (command : Command) : (crew.spawn command).Counted := by
  have hfresh : (Job.ofCommand command).isUnfinished = true := rfl
  simp only [Counted, Crew.spawn, unfinished, SyncGroup.increment, List.filter_append,
    List.length_append] at h ⊢
  simp [hfresh, h]

theorem brought_spawn (crew : Crew) (command : Command) :
    (crew.spawn command).brought = crew.brought := by
  simp [brought, spawn, Job.ofCommand, Job.failure?]

theorem Slotted.spawn (h : crew.Slotted) (command : Command) : (crew.spawn command).Slotted :=
  ⟨fun failure hfailure => brought_spawn crew command ▸ h.of_some failure hfailure,
    fun hfailure => brought_spawn crew command ▸ h.of_none hfailure⟩

theorem commands_spawn (crew : Crew) (command : Command) :
    (crew.spawn command).commands = crew.commands ++ [command] := by
  simp [commands, spawn, Job.ofCommand]

theorem Step.commands_eq (h : crew.Step tree world next told) : next.commands = crew.commands := by
  cases h with
  | job _ hjob => simp only [commands, List.map_append, List.map_cons, hjob.command_eq]

theorem Step.unfinished_ne_nil (h : crew.Step tree world next told) : crew.unfinished ≠ [] := by
  cases h with
  | job _ hjob => simp [unfinished, hjob.isUnfinished]

theorem Step.counted (h : crew.Step tree world next told) (hcounted : crew.Counted) :
    next.Counted := by
  cases h with
  | @job group after before behind job next told hjob =>
      have hstep := hjob.outstanding_eq
      have hbusy := hjob.isUnfinished
      simp only [Counted, unfinished, List.filter_append, List.filter_cons, hbusy, ite_true,
        List.length_append, List.length_cons] at hcounted ⊢
      cases hnext : next.isUnfinished with
      | true =>
          simp only [hnext, ite_true, List.length_cons] at hstep ⊢
          omega
      | false =>
          simp only [hnext, Bool.false_eq_true, ite_false] at hstep ⊢
          omega

theorem brought_split (group : SyncGroup) (before behind : List Job) (job : Job) :
    (Crew.mk group (before ++ job :: behind)).brought =
      before.filterMap (·.failure?) ++ (job.failure?.toList ++ behind.filterMap (·.failure?)) := by
  cases hjob : job.failure? <;> simp [brought, hjob]

theorem Step.slotted (h : crew.Step tree world next told) (hslotted : crew.Slotted) :
    next.Slotted := by
  obtain ⟨hsome, hnone⟩ := hslotted
  cases h with
  | @job group after before behind job next told hjob =>
      rw [brought_split] at hsome hnone
      rcases hjob.failure_eq with ⟨hsame, hgroup⟩ | ⟨hnew, hgroup⟩
      · constructor <;> simpa only [brought_split, hsame, hgroup]
      · rw [hnew, Option.toList_none, List.nil_append] at hsome hnone
        cases hkept : group.failure with
        | some kept =>
            have hmem := hsome kept hkept
            rw [hkept, Option.some_or] at hgroup
            refine ⟨fun failure hfailure => ?_, fun hfailure => ?_⟩
            · rw [Option.some_inj.mp (hgroup.symm.trans hfailure)] at hmem
              rw [brought_split]
              simp only [List.mem_append] at hmem ⊢
              tauto
            · exact nomatch hgroup.symm.trans hfailure
        | none =>
            -- so far nothing was brought, and what is kept now is what this job brings
            obtain ⟨hbefore, hbehind⟩ := List.append_eq_nil_iff.mp (hnone hkept)
            rw [hkept, Option.none_or] at hgroup
            refine ⟨fun failure hfailure => ?_, fun hfailure => ?_⟩ <;>
              simpa [brought_split, hbefore, hbehind, ← hgroup] using hfailure

theorem Quiet.not_step (hquiet : crew.Quiet) : ¬crew.Step tree world next told :=
  fun hstep => hstep.unfinished_ne_nil hquiet.unfinished

end Crew

-- The phases of a run that has begun so many waves and has ended all of them.
def Phase.lifecycle (waves : Nat) : List Phase :=
  .resolvingTargets :: (List.replicate waves [dispatching, draining]).flatten

theorem Phase.lifecycle_succ (waves : Nat) :
    lifecycle (waves + 1) = lifecycle waves ++ [dispatching, draining] := by
  simp [lifecycle, List.replicate_succ']

def Phase.closing : Except Failure Unit → Phase
  | .ok () => succeeded
  | .error _ => failed

namespace Plan

-- What is left of a plan after waves, the latest one first.
def Leaves (plan : Plan) (rest : List PlanStep) (waves : List (List Command)) : Prop :=
  ∃ done, plan.steps = done ++ rest ∧ done.filterMap (·.commands?) = waves.reverse

variable {plan : Plan} {rest : List PlanStep} {waves : List (List Command)}

theorem leaves_start (plan : Plan) : plan.Leaves plan.steps [] := ⟨[], rfl, rfl⟩

theorem Leaves.note {entry : Entry} (h : plan.Leaves (.note entry :: rest) waves) :
    plan.Leaves rest waves := by
  obtain ⟨done, hsteps, hwaves⟩ := h
  refine ⟨done ++ [.note entry], by simp [hsteps], ?_⟩
  simp [hwaves]

theorem Leaves.wave {wave : Wave} (h : plan.Leaves (.wave wave :: rest) waves) :
    plan.Leaves rest (wave.commands :: waves) := by
  obtain ⟨done, hsteps, hwaves⟩ := h
  refine ⟨done ++ [.wave wave], by simp [hsteps], ?_⟩
  simp [hwaves]

theorem Leaves.prefix_waves (h : plan.Leaves rest waves) : waves.reverse <+: plan.waves := by
  obtain ⟨done, hsteps, hwaves⟩ := h
  rw [Plan.waves, hsteps, List.filterMap_append, hwaves]
  exact List.prefix_append _ _

theorem Leaves.waves_eq (h : plan.Leaves [] waves) : plan.waves = waves.reverse := by
  obtain ⟨done, hsteps, hwaves⟩ := h
  rw [Plan.waves, hsteps, List.append_nil, hwaves]

end Plan

-- What every state of an execution has in common: all waves but the latest are over and had no
-- failure, and in the latest the tasks are those of the plan, counted without a gap.
inductive ExecutionState.FollowsPlan (plan : Plan) : ExecutionState → Prop
  | between {rest : List PlanStep} {crews : List Crew} {log : Log}
      (hleft : plan.Leaves rest (crews.map (·.commands))) (hclean : ∀ crew ∈ crews, crew.Clean) :
      FollowsPlan plan ⟨.between rest, crews, Phase.lifecycle crews.length, log⟩
  | starting {commands : List Command} {rest : List PlanStep} {crew : Crew} {earlier : List Crew}
      {log : Log} (hcounted : crew.Counted) (hslotted : crew.Slotted)
      (hleft : plan.Leaves rest ((crew.commands ++ commands) :: earlier.map (·.commands)))
      (hclean : ∀ crew ∈ earlier, crew.Clean) :
      FollowsPlan plan ⟨.starting commands rest, crew :: earlier,
        Phase.lifecycle earlier.length ++ [.dispatching], log⟩
  | draining {rest : List PlanStep} {crew : Crew} {earlier : List Crew} {log : Log}
      (hcounted : crew.Counted) (hslotted : crew.Slotted)
      (hleft : plan.Leaves rest (crew.commands :: earlier.map (·.commands)))
      (hclean : ∀ crew ∈ earlier, crew.Clean) :
      FollowsPlan plan ⟨.draining rest, crew :: earlier, Phase.lifecycle (earlier.length + 1), log⟩
  | finished {crews : List Crew} {log : Log}
      (hleft : plan.Leaves [] (crews.map (·.commands))) (hclean : ∀ crew ∈ crews, crew.Clean) :
      FollowsPlan plan ⟨.returned plan.outcome, crews,
        Phase.lifecycle crews.length ++ [.closing plan.outcome], log⟩
  | gaveUp {failure : Failure} {rest : List PlanStep} {crew : Crew} {earlier : List Crew}
      {log : Log} (hquiet : crew.Quiet) (hfailure : failure ∈ crew.brought)
      (hleft : plan.Leaves rest (crew.commands :: earlier.map (·.commands)))
      (hclean : ∀ crew ∈ earlier, crew.Clean) :
      FollowsPlan plan ⟨.returned (.error failure), crew :: earlier,
        Phase.lifecycle (earlier.length + 1) ++ [.failed], log⟩

def ClusterCommand.verdict (command : ClusterCommand) : Except Failure Unit → Entry
  | .ok () => .info s!"{command.title} succeeded"
  | .error failure => .error s!"{command.title} failed: {failure.message}"

theorem ClusterCommand.close_eq (command : ClusterCommand) (result : Except Failure Unit)
    (crews : List Crew) (phases : List Phase) (log : Log) :
    command.close result crews phases log =
      ⟨.returned result, crews, phases ++ [.closing result], log ++ [command.verdict result]⟩ := by
  cases result <;> rfl

namespace ExecutionState

variable {command : ClusterCommand} {state next : ExecutionState} {told : Log}

-- The end of a wave: nobody counts, hence nobody is unfinished.
theorem quiet_of_isDrained {crew : Crew} {group : SyncGroup} (hcounted : crew.Counted)
    (hdrained : crew.group.isDrained = true) (hgroup : group.outstanding = crew.group.outstanding) :
    Crew.Quiet { crew with group } := by
  have hzero := SyncGroup.isDrained_iff.mp hdrained
  refine ⟨hgroup.trans hcounted, ?_⟩
  exact List.eq_nil_of_length_eq_zero (hcounted.symm.trans hzero)

theorem followsPlan_start (command : ClusterCommand) (tree : FileTree) :
    FollowsPlan (command.plan tree) (command.start tree) :=
  .between (Plan.leaves_start _) (fun _ hcrew => nomatch hcrew)

-- The tasks of earlier waves take no steps any more, so only the latest wave can be at work.
theorem eq_nil_of_step {latest crew after : Crew} {earlier later behind : List Crew}
    (hstep : crew.Step tree world after told) (hclean : ∀ crew ∈ earlier, crew.Clean)
    (hsplit : latest :: earlier = later ++ crew :: behind) :
    later = [] ∧ latest = crew ∧ earlier = behind := by
  cases later with
  | nil => simpa using hsplit
  | cons first later =>
      have hmem : crew ∈ earlier := by
        rw [(List.cons.inj hsplit).2]
        simp
      exact absurd hstep (hclean crew hmem).toQuiet.not_step

-- Only the tasks of the latest wave work, and only while the dispatcher is in it.
theorem FollowsPlan.latest_of_step {plan : Plan} {control : Control} {later earlier : List Crew}
    {crew after : Crew} {phases : List Phase} {log told : Log}
    (h : FollowsPlan plan ⟨control, later ++ crew :: earlier, phases, log⟩)
    (hstep : crew.Step tree world after told) : later = [] ∧ control.inWave = true := by
  generalize hcrews : later ++ crew :: earlier = crews at h
  have hmem : crew ∈ crews := hcrews ▸ List.mem_append_right _ List.mem_cons_self
  cases h with
  | between _ hclean => exact absurd hstep (hclean crew hmem).toQuiet.not_step
  | finished _ hclean => exact absurd hstep (hclean crew hmem).toQuiet.not_step
  | gaveUp hquiet _ _ hclean =>
      rcases List.mem_cons.mp hmem with rfl | hold
      · exact absurd hstep hquiet.not_step
      · exact absurd hstep (hclean crew hold).toQuiet.not_step
  | starting _ _ _ hclean => exact ⟨(eq_nil_of_step hstep hclean hcrews.symm).1, rfl⟩
  | draining _ _ _ hclean => exact ⟨(eq_nil_of_step hstep hclean hcrews.symm).1, rfl⟩

-- While the dispatcher is in a wave, the failures of that wave are all there are.
theorem FollowsPlan.latest {plan : Plan} {control : Control} {crew : Crew} {earlier : List Crew}
    {phases : List Phase} {log : Log} (h : FollowsPlan plan ⟨control, crew :: earlier, phases, log⟩)
    (hwave : control.inWave = true) : crew.Slotted ∧ ∀ crew ∈ earlier, crew.Clean := by
  cases h with
  | between | finished | gaveUp => exact nomatch hwave
  | starting _ hslotted _ hclean => exact ⟨hslotted, hclean⟩
  | draining _ hslotted _ hclean => exact ⟨hslotted, hclean⟩

theorem FollowsPlan.work {plan : Plan} {control : Control} {later earlier : List Crew}
    {crew after : Crew} {phases : List Phase} {log : Log} (hstep : crew.Step tree world after told)
    (h : FollowsPlan plan ⟨control, later ++ crew :: earlier, phases, log⟩) :
    FollowsPlan plan ⟨control, later ++ after :: earlier, phases, log ++ told⟩ := by
  generalize hcrews : later ++ crew :: earlier = crews at h
  cases h with
  | between hleft hclean =>
      exact absurd hstep (hclean crew (hcrews ▸ by simp)).toQuiet.not_step
  | finished hleft hclean =>
      exact absurd hstep (hclean crew (hcrews ▸ by simp)).toQuiet.not_step
  | gaveUp hquiet hfailure hleft hclean =>
      obtain ⟨rfl, rfl, rfl⟩ := eq_nil_of_step hstep hclean hcrews.symm
      exact absurd hstep hquiet.not_step
  | starting hcounted hslotted hleft hclean =>
      obtain ⟨rfl, rfl, rfl⟩ := eq_nil_of_step hstep hclean hcrews.symm
      rw [← hstep.commands_eq] at hleft
      exact .starting (hstep.counted hcounted) (hstep.slotted hslotted) hleft hclean
  | draining hcounted hslotted hleft hclean =>
      obtain ⟨rfl, rfl, rfl⟩ := eq_nil_of_step hstep hclean hcrews.symm
      rw [← hstep.commands_eq] at hleft
      exact .draining (hstep.counted hcounted) (hstep.slotted hslotted) hleft hclean

theorem FollowsPlan.step (hstep : command.Step tree world state next)
    (h : FollowsPlan (command.plan tree) state) : FollowsPlan (command.plan tree) next := by
  cases hstep with
  | tell =>
      cases h with
      | between hleft hclean => exact .between hleft.note hclean
  | enter =>
      cases h with
      | between hleft hclean =>
          exact .starting Crew.counted_empty Crew.slotted_empty hleft.wave hclean
  | @spawn fresh commands steps crew earlier phases log =>
      cases h with
      | starting hcounted hslotted hleft hclean =>
          refine .starting (hcounted.spawn fresh) (hslotted.spawn fresh) ?_ hclean
          rwa [Crew.commands_spawn, List.append_assoc, List.singleton_append]
  | await =>
      cases h with
      | starting hcounted hslotted hleft hclean =>
          rw [List.append_nil] at hleft
          rw [List.append_assoc]
          exact Phase.lifecycle_succ _ ▸ .draining hcounted hslotted hleft hclean
  | goOn hdrained hresult =>
      cases h with
      | draining hcounted hslotted hleft hclean =>
          obtain ⟨hnone, rfl⟩ := SyncGroup.result_eq_ok hresult
          have hquiet := quiet_of_isDrained hcounted hdrained rfl
          exact .between hleft
            (List.forall_mem_cons.mpr ⟨⟨hquiet, hslotted.of_none hnone⟩, hclean⟩)
  | giveUp hdrained hresult =>
      cases h with
      | draining hcounted hslotted hleft hclean =>
          obtain ⟨hsome, rfl⟩ := SyncGroup.result_eq_error hresult
          exact .gaveUp (quiet_of_isDrained hcounted hdrained rfl) (hslotted.of_some _ hsome) hleft
            hclean
  | finish =>
      cases h with
      | between hleft hclean =>
          rw [ClusterCommand.close_eq]
          exact .finished hleft hclean
  | work _ hcrew => exact h.work hcrew

-- What has returned has carried its plan out, or has given up with a failure of its latest wave.
theorem FollowsPlan.of_returned {plan : Plan} {result : Except Failure Unit} {crews : List Crew}
    {phases : List Phase} {log : Log}
    (h : FollowsPlan plan ⟨.returned result, crews, phases, log⟩) :
    phases = Phase.lifecycle crews.length ++ [.closing result] ∧
      ((result = plan.outcome ∧ plan.Leaves [] (crews.map (·.commands)) ∧
          ∀ crew ∈ crews, crew.Clean) ∨
        ∃ failure rest crew earlier, result = .error failure ∧ crews = crew :: earlier ∧
          crew.Quiet ∧ failure ∈ crew.brought ∧
          plan.Leaves rest (crew.commands :: earlier.map (·.commands)) ∧
          ∀ crew ∈ earlier, crew.Clean) := by
  cases h with
  | finished hleft hclean => exact ⟨rfl, .inl ⟨rfl, hleft, hclean⟩⟩
  | gaveUp hquiet hfailure hleft hclean =>
      exact ⟨rfl, .inr ⟨_, _, _, _, rfl, rfl, hquiet, hfailure, hleft, hclean⟩⟩

-- What holds of fresh jobs and is kept by their steps holds of all jobs, whatever else happens.
theorem forall_jobs_of_reachable {holds : Job → Prop}
    (hfresh : ∀ command, holds (.ofCommand command))
    (hkept : ∀ {group after : SyncGroup} {job next : Job} {told : Log},
      job.Step tree world group after next told → holds job → holds next)
    (hreach : command.Reachable tree world state) :
    ∀ crew ∈ state.crews, ∀ job ∈ crew.jobs, holds job := by
  induction hreach with
  | refl => exact fun _ hcrew => nomatch hcrew
  | tail _ hstep ih =>
      cases hstep with
      | tell | await => exact ih
      | enter => exact List.forall_mem_cons.mpr ⟨fun _ hjob => (nomatch hjob), ih⟩
      | @spawn fresh =>
          obtain ⟨hcrew, hearlier⟩ := List.forall_mem_cons.mp ih
          refine List.forall_mem_cons.mpr ⟨List.forall_mem_append.mpr ⟨hcrew, ?_⟩, hearlier⟩
          exact List.forall_mem_singleton.mpr (hfresh fresh)
      | goOn =>
          obtain ⟨hcrew, hearlier⟩ := List.forall_mem_cons.mp ih
          exact List.forall_mem_cons.mpr ⟨hcrew, hearlier⟩
      | giveUp =>
          obtain ⟨hcrew, hearlier⟩ := List.forall_mem_cons.mp ih
          rw [ClusterCommand.close_eq]
          exact List.forall_mem_cons.mpr ⟨hcrew, hearlier⟩
      | finish =>
          rw [ClusterCommand.close_eq]
          exact ih
      | work later hcrew =>
          cases hcrew with
          | job before hjob =>
              simp only [List.forall_mem_append, List.forall_mem_cons] at ih ⊢
              obtain ⟨hlater, ⟨hbefore, hone, hbehind⟩, hearlier⟩ := ih
              exact ⟨hlater, ⟨hbefore, hkept hjob hone, hbehind⟩, hearlier⟩

-- The tasks of each wave are the first ones of a wave of the plan.
theorem FollowsPlan.planned {plan : Plan} (h : FollowsPlan plan state) :
    ∀ crew ∈ state.crews, ∃ commands ∈ plan.waves, crew.commands <+: commands := by
  have hleft : ∀ {rest : List PlanStep} {waves : List (List Command)},
      plan.Leaves rest waves → ∀ commands ∈ waves, commands ∈ plan.waves :=
    fun hleaves commands hcommands =>
      hleaves.prefix_waves.subset (List.mem_reverse.mpr hcommands)
  have hall : ∀ {rest : List PlanStep} {crews : List Crew},
      plan.Leaves rest (crews.map (·.commands)) →
        ∀ crew ∈ crews, ∃ commands ∈ plan.waves, crew.commands <+: commands :=
    fun hleaves crew hcrew =>
      ⟨_, hleft hleaves _ (List.mem_map_of_mem hcrew), List.prefix_rfl⟩
  cases h with
  | between hleaves | finished hleaves => exact hall hleaves
  | draining _ _ hleaves | gaveUp _ _ hleaves => exact @hall _ (_ :: _) hleaves
  | @starting commands rest crew earlier log _ _ hleaves =>
      refine List.forall_mem_cons.mpr ⟨?_, fun other hother => ?_⟩
      · exact ⟨_, hleft hleaves _ List.mem_cons_self, List.prefix_append _ _⟩
      · exact ⟨_, hleft hleaves _ (List.mem_cons_of_mem _ (List.mem_map_of_mem hother)),
          List.prefix_rfl⟩

theorem followsPlan_of_reachable (h : command.Reachable tree world state) :
    FollowsPlan (command.plan tree) state := by
  induction h with
  | refl => exact followsPlan_start command tree
  | tail _ hstep ih => exact ih.step hstep

end ExecutionState

end IndexFleet
