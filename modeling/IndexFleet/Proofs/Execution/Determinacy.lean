import IndexFleet.Proofs.Plan.Bulk
import IndexFleet.Proofs.Execution.Refinement
import IndexFleet.Proofs.Execution.Termination

namespace IndexFleet

variable {tree : FileTree} {network : Network}

-- How the results of two runs through the same waves compare: both are good, or both are failures
-- of tasks of the last wave, or both are the same failure while no task had one.
inductive Run.EndsAlike (waves : List WaveRun) : Except Failure Unit → Except Failure Unit → Prop
  | succeeded : EndsAlike waves (.ok ()) (.ok ())
  | taskFailed {earlier : List WaveRun} {last : WaveRun} {failure other : Failure}
      (hwaves : waves = earlier ++ [last]) (hclean : ∀ wave ∈ earlier, wave.failures = [])
      (hfailure : failure ∈ last.failures) (hother : other ∈ last.failures)
      (honly : last.failures.length = 1 → failure = other) :
      EndsAlike waves (.error failure) (.error other)
  | refused {failure : Failure} (hclean : ∀ wave ∈ waves, wave.failures = []) :
      EndsAlike waves (.error failure) (.error failure)

-- Two runs that differ in nothing but the order in which their tasks took their turns. Equal waves
-- have the same commands in the same order, and each of them made the same calls.
structure Run.AgreesWith (run other : Run) : Prop where
  phases : run.phases = other.phases
  waves : run.waves = other.waves
  result : EndsAlike run.waves run.result other.result

namespace Run

variable {waves : List WaveRun} {result other : Except Failure Unit}

theorem EndsAlike.cons {wave : WaveRun} (hclean : wave.failures = [])
    (h : EndsAlike waves result other) : EndsAlike (wave :: waves) result other := by
  cases h with
  | succeeded => exact .succeeded
  | @taskFailed earlier last _ _ hwaves hearlier hfailure hother honly =>
      have hsplit : wave :: waves = (wave :: earlier) ++ [last] := by
        rw [hwaves, List.cons_append]
      have hall : ∀ one ∈ wave :: earlier, one.failures = [] :=
        List.forall_mem_cons.mpr ⟨hclean, hearlier⟩
      exact .taskFailed hsplit hall hfailure hother honly
  | refused hwaves => exact .refused (List.forall_mem_cons.mpr ⟨hclean, hwaves⟩)

theorem EndsAlike.closing_eq (h : EndsAlike waves result other) :
    Phase.closing result = Phase.closing other := by
  cases h <;> rfl

-- Of a wave with one failing task only one failure can come.
theorem eq_of_length_failures {wave : WaveRun} {failure other : Failure}
    (hfailure : failure ∈ wave.failures) (hother : other ∈ wave.failures)
    (honly : wave.failures.length = 1) : failure = other := by
  obtain ⟨only, hlist⟩ := List.length_eq_one_iff.mp honly
  rw [hlist, List.mem_singleton] at hfailure hother
  rw [hfailure, hother]

end Run

-- Two courses of the same steps come to the same wave with a failing task, or to the end: whether
-- a wave is the last one depends on its failures, not on the one that was first.
theorem Course.Along.alike {outcome : Except Failure Unit} {steps : List PlanStep}
    {course other : Course} (h : Along tree (.replying network) outcome steps course)
    (hother : Along tree (.replying network) outcome steps other) :
    course.waves = other.waves ∧ Run.EndsAlike course.waves course.result other.result := by
  induction h generalizing other with
  | done =>
      cases hother with
      | done =>
          refine ⟨rfl, ?_⟩
          cases outcome with
          | ok => exact .succeeded
          | error failure => exact .refused (fun _ hwave => nomatch hwave)
  | note _ ih =>
      cases hother with
      | note hrest =>
          obtain ⟨hwaves, hresult⟩ := ih hrest
          exact ⟨congrArg ([] ++ ·) hwaves, hresult⟩
  | @goOn wave runs rest course hruns hclean _ ih =>
      rw [hruns.runs_eq] at hclean ⊢
      cases hother with
      | goOn hsame _ hrest =>
          rw [hsame.runs_eq]
          obtain ⟨hwaves, hresult⟩ := ih hrest
          exact ⟨congrArg ([wave.runs tree network] ++ ·) hwaves, hresult.cons hclean⟩
      | giveUp hsame hfailure =>
          rw [hsame.runs_eq, hclean] at hfailure
          exact nomatch hfailure
  | giveUp hruns hfailure =>
      rw [hruns.runs_eq] at hfailure ⊢
      cases hother with
      | goOn hsame hclean =>
          rw [← hsame.runs_eq, hclean] at hfailure
          exact nomatch hfailure
      | giveUp hsame hbrought =>
          rw [hsame.runs_eq] at hbrought ⊢
          have hearlier : ∀ wave ∈ ([] : List WaveRun), wave.failures = [] :=
            fun _ hwave => nomatch hwave
          exact ⟨rfl, .taskFailed rfl hearlier hfailure hbrought
            (Run.eq_of_length_failures hfailure hbrought)⟩

namespace ClusterCommand

variable {command : ClusterCommand}

theorem MayLeave.agreesWith {run other : Run}
    (hrun : command.MayLeave tree (.replying network) run)
    (hother : command.MayLeave tree (.replying network) other) : run.AgreesWith other := by
  obtain ⟨course, htakes, hwaves, hresult, _⟩ := hrun.takes id
  obtain ⟨course', htakes', hwaves', hresult', _⟩ := hother.takes id
  obtain ⟨hsame, halike⟩ := Course.Along.alike htakes htakes'
  rw [← hwaves, ← hwaves'] at hsame
  rw [← hwaves, ← hresult, ← hresult'] at halike
  constructor
  · rw [hrun.phases, hother.phases, hsame, halike.closing_eq]
  · exact hsame
  · exact halike

-- What a command comes to where replies depend on the calls alone, whatever the order in which its
-- tasks take their turns.
structure IsDeterminate (command : ClusterCommand) (tree : FileTree) (network : Network) :
    Prop where
  -- no order goes on for ever
  ends : WellFounded fun next state => command.Step tree (.replying network) state next
  -- and none comes to a standstill before the command returns
  goesOn : ∀ state, command.Reachable tree (.replying network) state → state.run? = none →
    ∃ next, command.Step tree (.replying network) state next
  -- one order is to run each task of a wave after the other
  runs : command.MayLeave tree (.replying network) (command.run tree network)
  agree : ∀ run other, command.MayLeave tree (.replying network) run →
    command.MayLeave tree (.replying network) other → run.AgreesWith other

theorem isDeterminate (command : ClusterCommand) (tree : FileTree) (network : Network) :
    command.IsDeterminate tree network := by
  constructor
  · exact command.wellFounded_step tree (.replying network)
  · intro state hreach hrun
    exact exists_step (fun request => ⟨network request, rfl⟩) hreach hrun
  · exact mayLeave_run (fun _ => rfl) command tree
  · intro run other hrun hother
    exact hrun.agreesWith hother

theorem plan_ping (tree : FileTree) :
    (forPair (.uniform .ping) none).plan tree =
      ⟨[.note (.info "ping on all resolved to 2 node(s)"),
        .wave ⟨[], (forPair (.uniform .ping) none).forEach .pair .ping none⟩], .ok ()⟩ := by
  rw [plan_of_targets _ tree .pair (targets_forPair _ _)]
  rfl

def nobody : Network := fun _ => .refused

-- Two orders of a ping that reaches neither of its nodes. They end with different failures and
-- agree in all else.
theorem isDeterminate_ping :
    ∃ run other, (forPair (.uniform .ping) none).MayLeave (.bare []) (.replying nobody) run ∧
      (forPair (.uniform .ping) none).MayLeave (.bare []) (.replying nobody) other ∧
      run.result ≠ other.result ∧ run.AgreesWith other := by
  let command := forPair (.uniform .ping) none
  let wave : Wave := ⟨[], command.forEach .pair .ping none⟩
  have hruns : wave.MayLeave (.bare []) (.replying nobody) (wave.runs (.bare []) nobody) :=
    ⟨wave.commands_runs _ _, wave.mayLeave_runs (fun _ => rfl) _⟩
  obtain ⟨first, second, hfailures, hne⟩ : ∃ first second : Failure,
      WaveRun.failures (wave.runs (.bare []) nobody) = [first, second] ∧ first ≠ second :=
    ⟨_, _, rfl, by decide⟩
  have hleave : ∀ failure ∈ [first, second], ∃ run,
      command.MayLeave (.bare []) (.replying nobody) run ∧ run.result = .error failure := by
    intro failure hfailure
    rw [← hfailures] at hfailure
    obtain ⟨course, htakes, hends⟩ : ∃ course,
        (command.plan (.bare [])).MayTake (.bare []) (.replying nobody) course ∧
          course.result = .error failure := by
      rw [plan_ping]
      exact ⟨_, .note (.giveUp hruns hfailure), rfl⟩
    obtain ⟨run, hrun, _, hresult⟩ := exists_mayLeave htakes
    exact ⟨run, hrun, hresult.trans hends⟩
  obtain ⟨run, hrun, hresult⟩ := hleave first List.mem_cons_self
  obtain ⟨other, hother, hresult'⟩ := hleave second (List.mem_cons_of_mem _ List.mem_cons_self)
  refine ⟨run, other, hrun, hother, ?_, (isDeterminate _ _ _).agree run other hrun hother⟩
  rw [hresult, hresult']
  intro hsame
  exact hne (Except.error.inj hsame)

end ClusterCommand

end IndexFleet
