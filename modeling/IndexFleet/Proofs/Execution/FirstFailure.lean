import IndexFleet.Proofs.Execution.Outcome

namespace IndexFleet

variable {tree : FileTree} {world : World} {failure : Failure}

-- A group that keeps a failure keeps it until it is asked for it.
theorem Crew.Step.failure_of_some {crew next : Crew} {told : Log}
    (hstep : crew.Step tree world next told) (hkept : crew.group.failure = some failure) :
    next.group.failure = some failure := by
  cases hstep with
  | job before hjob =>
      rcases hjob.failure_eq with ⟨_, hsame⟩ | ⟨_, hmore⟩
      · exact hsame.trans hkept
      · exact hmore.trans (by rw [hkept, Option.some_or])

-- The step that brings a group its failure brings the first failure of the crew.
theorem Crew.Step.brought_of_none {crew next : Crew} {told : Log}
    (hstep : crew.Step tree world next told) (hslotted : crew.Slotted)
    (hnone : crew.group.failure = none) (hkept : next.group.failure = some failure) :
    next.brought = [failure] := by
  have hnothing := hslotted.of_none hnone
  cases hstep with
  | @job group after before behind job next told hjob =>
      rw [Crew.brought_split] at hnothing ⊢
      obtain ⟨hbefore, hrest⟩ := List.append_eq_nil_iff.mp hnothing
      obtain ⟨hone, hbehind⟩ := List.append_eq_nil_iff.mp hrest
      have hbrings : next.failure? = some failure := by
        rcases hjob.failure_eq with ⟨_, hsame⟩ | ⟨_, hmore⟩
        · exact nomatch hnone.symm.trans (hsame.symm.trans hkept)
        · rw [hnone, Option.none_or] at hmore
          exact hmore.symm.trans hkept
      rw [hbefore, hbehind, hbrings]
      rfl

-- A group keeps the failure of its tasks if there is only one so far.
theorem Crew.failure_of_brought {crew : Crew} (hslotted : crew.Slotted)
    (hbrought : crew.brought = [failure]) : crew.group.failure = some failure := by
  cases hkept : crew.group.failure with
  | none => exact nomatch (hslotted.of_none hkept).symm.trans hbrought
  | some kept =>
      have hmem := hslotted.of_some kept hkept
      rw [hbrought, List.mem_singleton] at hmem
      rw [hmem]

namespace ExecutionState

variable {command : ClusterCommand} {state next : ExecutionState} {run : Run}

def brought (state : ExecutionState) : List Failure := state.crews.flatMap (·.brought)

-- There was a moment at which a failure was the only one that tasks had recorded.
def RecordedFirst (command : ClusterCommand) (tree : FileTree) (world : World)
    (state : ExecutionState) (failure : Failure) : Prop :=
  ∃ moment, command.Reachable tree world moment ∧ moment.brought = [failure] ∧
    Relation.ReflTransGen (command.Step tree world) moment state

-- An execution that cannot return but with a failure: the group of its latest wave keeps it.
inductive BoundTo (failure : Failure) : ExecutionState → Prop
  | inWave {control : Control} {crew : Crew} {earlier : List Crew} {phases : List Phase} {log : Log}
      (hwave : control.inWave = true) (hkept : crew.group.failure = some failure) :
      BoundTo failure ⟨control, crew :: earlier, phases, log⟩
  | returned {crews : List Crew} {phases : List Phase} {log : Log} :
      BoundTo failure ⟨.returned (.error failure), crews, phases, log⟩

theorem BoundTo.step (hstep : command.Step tree world state next) (h : BoundTo failure state) :
    BoundTo failure next := by
  cases hstep with
  | tell | enter | finish =>
      cases h with
      | inWave hwave => exact nomatch hwave
  | spawn =>
      cases h with
      | inWave _ hkept => exact .inWave rfl hkept
  | await =>
      cases h with
      | inWave _ hkept => exact .inWave rfl hkept
  | goOn _ hresult =>
      cases h with
      | inWave _ hkept => exact nomatch hkept.symm.trans (SyncGroup.result_eq_ok hresult).1
  | giveUp _ hresult =>
      cases h with
      | inWave _ hkept =>
          obtain ⟨hsome, _⟩ := SyncGroup.result_eq_error hresult
          rw [ClusterCommand.close_eq, Option.some_inj.mp (hsome.symm.trans hkept)]
          exact .returned
  | @work control later earlier crew after phases log told hcrew =>
      generalize hcrews : later ++ crew :: earlier = crews at h
      cases h with
      | returned => exact .returned
      | inWave hwave hkept =>
          cases later with
          | nil =>
              obtain ⟨rfl, rfl⟩ := List.cons.inj hcrews
              exact .inWave hwave (hcrew.failure_of_some hkept)
          | cons latest later =>
              obtain ⟨rfl, _⟩ := List.cons.inj hcrews
              exact .inWave hwave hkept

theorem BoundTo.steps (hsteps : Relation.ReflTransGen (command.Step tree world) state next)
    (h : BoundTo failure state) : BoundTo failure next := by
  induction hsteps with
  | refl => exact h
  | tail _ hstep ih => exact ih.step hstep

theorem brought_of_clean {crews : List Crew} (hclean : ∀ crew ∈ crews, crew.Clean) :
    crews.flatMap (·.brought) = [] :=
  List.flatMap_eq_nil_iff.mpr fun crew hcrew => (hclean crew hcrew).brought

theorem brought_cons_of_clean (crew : Crew) {earlier : List Crew}
    (hclean : ∀ crew ∈ earlier, crew.Clean) :
    (crew :: earlier).flatMap (·.brought) = crew.brought := by
  rw [List.flatMap_cons, brought_of_clean hclean, List.append_nil]

theorem boundTo_of_brought (hreach : command.Reachable tree world state)
    (hbrought : state.brought = [failure]) : BoundTo failure state := by
  cases followsPlan_of_reachable hreach with
  | between _ hclean => exact nomatch (brought_of_clean hclean).symm.trans hbrought
  | finished _ hclean => exact nomatch (brought_of_clean hclean).symm.trans hbrought
  | starting _ hslotted _ hclean =>
      have hlatest := (brought_cons_of_clean _ hclean).symm.trans hbrought
      exact .inWave rfl (Crew.failure_of_brought hslotted hlatest)
  | draining _ hslotted _ hclean =>
      have hlatest := (brought_cons_of_clean _ hclean).symm.trans hbrought
      exact .inWave rfl (Crew.failure_of_brought hslotted hlatest)
  | gaveUp _ hfailure _ hclean =>
      have hlatest := (brought_cons_of_clean _ hclean).symm.trans hbrought
      rw [hlatest, List.mem_singleton] at hfailure
      exact hfailure ▸ .returned

theorem RecordedFirst.result_eq (h : RecordedFirst command tree world state failure)
    (hrun : state.run? = some run) : run.result = .error failure := by
  obtain ⟨moment, hreach, hbrought, hsteps⟩ := h
  obtain ⟨control, crews, phases, log⟩ := state
  cases (boundTo_of_brought hreach hbrought).steps hsteps with
  | returned => exact (congrArg Run.result (Option.some.inj hrun)).symm
  | inWave hwave =>
      cases control with
      | between | returned => exact nomatch hwave
      | starting | draining => exact nomatch hrun

theorem RecordedFirst.step (hstep : command.Step tree world state next)
    (h : RecordedFirst command tree world state failure) :
    RecordedFirst command tree world next failure := by
  obtain ⟨moment, hreach, hbrought, hsteps⟩ := h
  exact ⟨moment, hreach, hbrought, hsteps.tail hstep⟩

-- What an execution is bound to was recorded first, unless it returned before any task failed.
theorem recordedFirst_of_boundTo (hreach : command.Reachable tree world state)
    (hbound : BoundTo failure state) (hhurt : state.brought ≠ []) :
    RecordedFirst command tree world state failure := by
  induction hreach with
  | refl => exact nomatch hbound
  | @tail state next hbefore hstep ih =>
      have hfollows := followsPlan_of_reachable hbefore
      have hwhole := hbefore.tail hstep
      cases hstep with
      | tell | goOn =>
          cases hbound with
          | inWave hwave => exact nomatch hwave
      | enter =>
          cases hbound with
          | inWave _ hkept => exact nomatch hkept
      | @spawn fresh commands steps crew earlier phases log =>
          cases hbound with
          | inWave _ hkept =>
              simp only [brought, List.flatMap_cons, Crew.brought_spawn] at hhurt
              exact (ih (.inWave rfl hkept) hhurt).step .spawn
      | await =>
          cases hbound with
          | inWave _ hkept => exact (ih (.inWave rfl hkept) hhurt).step .await
      | giveUp hdrained hresult =>
          obtain ⟨hsome, _⟩ := SyncGroup.result_eq_error hresult
          rw [ClusterCommand.close_eq] at hbound hhurt
          cases hbound with
          | inWave hwave => exact nomatch hwave
          | returned => exact (ih (.inWave rfl hsome) hhurt).step (.giveUp hdrained hresult)
      | finish =>
          rw [ClusterCommand.close_eq] at hhurt
          cases hfollows with
          | between _ hclean => exact absurd (brought_of_clean hclean) hhurt
      | @work control later earlier crew after phases log told hcrew =>
          obtain ⟨rfl, hwave⟩ := hfollows.latest_of_step hcrew
          obtain ⟨hslotted, hclean⟩ := hfollows.latest hwave
          cases hbound with
          | returned => exact nomatch hwave
          | inWave _ hkept =>
              cases hbefore : crew.group.failure with
              | none =>
                  refine ⟨_, hwhole, ?_, .refl⟩
                  exact (brought_cons_of_clean after hclean).trans
                    (hcrew.brought_of_none hslotted hbefore hkept)
              | some kept =>
                  have hsame := (hcrew.failure_of_some hbefore).symm.trans hkept
                  rw [Option.some_inj.mp hsame] at hbefore
                  have hmem := hslotted.of_some failure hbefore
                  refine (ih (.inWave hwave hbefore) ?_).step (.work [] hcrew)
                  exact List.ne_nil_of_mem (List.mem_append_left _ hmem)

-- Where only tasks can fail, a failure is the result if and only if it was recorded first.
theorem result_eq_error_iff (hplan : (command.plan tree).outcome = .ok ())
    (hreach : command.Reachable tree world state) (hrun : state.run? = some run) :
    run.result = .error failure ↔ RecordedFirst command tree world state failure := by
  refine ⟨fun hresult => ?_, fun hfirst => hfirst.result_eq hrun⟩
  obtain ⟨control, crews, phases, log⟩ := state
  cases control with
  | between | starting | draining => exact nomatch hrun
  | returned result =>
      obtain rfl : result = .error failure :=
        (congrArg Run.result (Option.some.inj hrun)).trans hresult
      rcases (followsPlan_of_reachable hreach).of_returned.2 with
        ⟨hsame, _, _⟩ | ⟨brought, rest, crew, earlier, _, rfl, _, hbrought, _, _⟩
      · exact nomatch hplan.symm.trans hsame.symm
      · refine recordedFirst_of_boundTo hreach .returned ?_
        exact List.ne_nil_of_mem (List.mem_append_left _ hbrought)

end ExecutionState

end IndexFleet
