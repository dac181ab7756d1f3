import IndexFleet.Proofs.Bulk.Sources

namespace IndexFleet

variable {command : ClusterCommand} {tree : FileTree} {world : World} {state : ExecutionState}

namespace ClusterCommand

-- How many tasks a command may have at work at the same time, given the number of its targets.
def Bounds (command : ClusterCommand) (count : Nat) (jobs : List Job) : Prop :=
  match command.kind with
  | .uniform _ | .batchDelete => jobs.length ≤ count
  | .addDir => jobs.length ≤ command.settings.uploadsPerWave count
  | .updateDir =>
      ((∀ job ∈ jobs, job.command.kind = .addData) ∧
        jobs.length ≤ command.settings.uploadsPerWave count) ∨
      ((∀ job ∈ jobs, job.command.kind = .delete) ∧ jobs.length ≤ count)

theorem IsWaveOf.of_jobs {kind : CommandKind} {limit : Nat} {commands : List Command}
    {jobs : List Job} (hwave : IsWaveOf kind limit commands)
    (hjobs : (jobs.map (·.command)).Sublist commands) :
    (∀ job ∈ jobs, job.command.kind = kind) ∧ jobs.length ≤ limit := by
  refine ⟨fun job hjob => hwave.kind_eq _ (hjobs.subset (List.mem_map_of_mem hjob)), ?_⟩
  have hlength := hjobs.length_le
  rw [List.length_map] at hlength
  exact Nat.le_trans hlength hwave.length_le

theorem IsWave.bounds {count : Nat} {commands : List Command} {jobs : List Job}
    (hwave : command.IsWave count commands)
    (hjobs : (jobs.map (·.command)).Sublist commands) : command.Bounds count jobs := by
  unfold IsWave at hwave
  unfold Bounds
  cases hkind : command.kind with
  | uniform kind =>
      rw [hkind] at hwave
      exact (hwave.of_jobs hjobs).2
  | addDir =>
      rw [hkind] at hwave
      exact (hwave.of_jobs hjobs).2
  | batchDelete =>
      rw [hkind] at hwave
      exact (hwave.of_jobs hjobs).2
  | updateDir =>
      rw [hkind] at hwave
      exact hwave.imp (·.of_jobs hjobs) (·.of_jobs hjobs)

theorem bounds_nil (count : Nat) : command.Bounds count [] := by
  unfold Bounds
  cases command.kind <;> simp

end ClusterCommand

theorem Job.isUnfinished_of_underWay {job : Job} (hasking : job.underWay?.isSome = true) :
    job.isUnfinished = true := by
  obtain ⟨made, calls, log, stage⟩ := job
  cases stage <;> first | rfl | cases hasking

theorem Crew.unfinished_ne_nil {crew : Crew} {job : Job} (hjob : job ∈ crew.jobs)
    (hasking : job.underWay?.isSome = true) : crew.unfinished ≠ [] :=
  List.ne_nil_of_mem (List.mem_filter.mpr ⟨hjob, Job.isUnfinished_of_underWay hasking⟩)

namespace ExecutionState

-- The tasks of a state that has its waves in order. All that are unfinished belong to the latest
-- wave, and that one is part of the plan.
structure IsOrdered (plan : Plan) (state : ExecutionState) : Prop where
  counted : ∀ crew ∈ state.crews, crew.Counted
  earlier : ∀ crew ∈ state.crews.tail, crew.unfinished = []
  settled : state.control.inWave = false → state.unfinished = []
  planned : state.unfinished = [] ∨
    ∃ commands ∈ plan.waves, (state.unfinished.map (·.command)).Sublist commands

theorem unfinished_cons_of_clean (crew : Crew) {earlier : List Crew}
    (hclean : ∀ crew ∈ earlier, crew.Clean) :
    (crew :: earlier).flatMap (·.unfinished) = crew.unfinished := by
  have hearlier : earlier.flatMap (·.unfinished) = [] :=
    List.flatMap_eq_nil_iff.mpr fun other hother => (hclean other hother).unfinished
  rw [List.flatMap_cons, hearlier, List.append_nil]

theorem isOrdered_of_clean {plan : Plan} {control : Control} {crews : List Crew}
    {phases : List Phase} {log : Log} (hclean : ∀ crew ∈ crews, crew.Clean) :
    IsOrdered plan ⟨control, crews, phases, log⟩ := by
  have hnil : crews.flatMap (·.unfinished) = [] :=
    List.flatMap_eq_nil_iff.mpr fun crew hcrew => (hclean crew hcrew).unfinished
  have hearlier : ∀ crew ∈ crews.tail, crew.unfinished = [] :=
    fun crew hcrew => (hclean crew (List.mem_of_mem_tail hcrew)).unfinished
  exact ⟨fun crew hcrew => (hclean crew hcrew).counted, hearlier, fun _ => hnil, .inl hnil⟩

-- In the middle of a wave its tasks are the first ones of a wave of the plan.
theorem isOrdered_of_wave {plan : Plan} {control : Control} {crew : Crew} {earlier : List Crew}
    {phases : List Phase} {log : Log} {rest : List PlanStep} (commands : List Command)
    (hcounted : crew.Counted) (hclean : ∀ crew ∈ earlier, crew.Clean)
    (hwave : control.inWave = true)
    (hleft : plan.Leaves rest ((crew.commands ++ commands) :: earlier.map (·.commands))) :
    IsOrdered plan ⟨control, crew :: earlier, phases, log⟩ := by
  have hunfinished := unfinished_cons_of_clean crew hclean
  have hmem : crew.commands ++ commands ∈ plan.waves :=
    hleft.prefix_waves.subset (List.mem_reverse.mpr List.mem_cons_self)
  have hpart : (crew.unfinished.map (·.command)).Sublist (crew.commands ++ commands) :=
    (List.filter_sublist.map _).trans (List.sublist_append_left _ _)
  have hall : ∀ other ∈ crew :: earlier, other.Counted :=
    List.forall_mem_cons.mpr ⟨hcounted, fun other hother => (hclean other hother).counted⟩
  refine ⟨hall, fun other hother => (hclean other hother).unfinished, fun houtside => ?_,
    .inr ⟨_, hmem, ?_⟩⟩
  · exact absurd (hwave.symm.trans houtside) Bool.noConfusion
  · rwa [unfinished, hunfinished]

theorem FollowsPlan.isOrdered {plan : Plan} (h : FollowsPlan plan state) :
    IsOrdered plan state := by
  cases h with
  | between _ hclean => exact isOrdered_of_clean hclean
  | finished _ hclean => exact isOrdered_of_clean hclean
  | starting hcounted _ hleft hclean => exact isOrdered_of_wave _ hcounted hclean rfl hleft
  | draining hcounted _ hleft hclean =>
      exact isOrdered_of_wave [] hcounted hclean rfl (by rwa [List.append_nil])
  | @gaveUp failure rest crew earlier log hquiet _ _ hclean =>
      have hnil : (crew :: earlier).flatMap (·.unfinished) = [] :=
        (unfinished_cons_of_clean crew hclean).trans hquiet.unfinished
      have hcounted : ∀ other ∈ crew :: earlier, other.Counted :=
        List.forall_mem_cons.mpr ⟨hquiet.counted, fun other hother => (hclean other hother).counted⟩
      have hearlier : ∀ other ∈ earlier, other.unfinished = [] :=
        fun other hother => (hclean other hother).unfinished
      exact ⟨hcounted, hearlier, fun _ => hnil, .inl hnil⟩

-- Beginning a wave, going on after one and returning leave all tasks as they are, and after each
-- of them the state is settled or has just begun its wave.
theorem unfinished_of_leaves_wave {next : ExecutionState}
    (hreach : command.Reachable tree world state)
    (hstep : command.Step tree world state next)
    (hleaves : next.control.inWave = false ∨ state.crews.length < next.crews.length) :
    state.unfinished = [] := by
  have hbefore := (followsPlan_of_reachable hreach).isOrdered.settled
  have hafter := (followsPlan_of_reachable (hreach.tail hstep)).isOrdered.settled
  cases hstep with
  | tell => exact hbefore rfl
  | enter => exact hbefore rfl
  | finish => exact hbefore rfl
  | spawn | await => simp [Control.inWave] at hleaves
  | goOn => exact hafter rfl
  | giveUp => exact hafter rfl
  | work => exact hbefore (by simpa using hleaves)

-- What holds of every state that an execution comes to, whatever the servers answer, however the
-- tasks take their turns and even if tasks panic.
structure IsOrderly (command : ClusterCommand) (tree : FileTree) (world : World)
    (state : ExecutionState) : Prop where
  -- all unfinished tasks belong to one wave
  one_wave : ∀ i j (hi : i < state.crews.length) (hj : j < state.crews.length),
    state.crews[i].unfinished ≠ [] → state.crews[j].unfinished ≠ [] → i = j
  -- so do all calls that are under way
  one_wave_asks : ∀ i j (hi : i < state.crews.length) (hj : j < state.crews.length),
    ∀ job ∈ state.crews[i].jobs, ∀ other ∈ state.crews[j].jobs,
      job.underWay?.isSome = true → other.underWay?.isSome = true → i = j
  bounds : ∀ nodes, command.database.targets command.target = .ok nodes →
    command.Bounds nodes.length state.unfinished
  counted : ∀ crew ∈ state.crews, crew.group.outstanding = crew.unfinished.length
  -- outside of a wave nothing is unfinished, be it between two waves or sources or at the end
  settled : state.control.inWave = false → state.unfinished = []
  -- the dispatcher ends a wave, begins one or returns only if nothing is unfinished
  barrier : ∀ next, command.Step tree world state next →
    next.control.inWave = false ∨ state.crews.length < next.crews.length → state.unfinished = []

theorem isOrderly_of_reachable (hreach : command.Reachable tree world state) :
    state.IsOrderly command tree world := by
  have hordered := (followsPlan_of_reachable hreach).isOrdered
  have honly : ∀ i (hi : i < state.crews.length), state.crews[i].unfinished ≠ [] → i = 0 := by
    intro i hi hbusy
    by_contra hlater
    refine hbusy (hordered.earlier _ (List.mem_iff_getElem.mpr ⟨i - 1, ?_, ?_⟩))
    · rw [List.length_tail]
      omega
    · rw [List.getElem_tail]
      congr 1
      omega
  have hone : ∀ i j (hi : i < state.crews.length) (hj : j < state.crews.length),
      state.crews[i].unfinished ≠ [] → state.crews[j].unfinished ≠ [] → i = j :=
    fun i j hi hj hbusy hother => (honly i hi hbusy).trans (honly j hj hother).symm
  refine ⟨hone, ?_, ?_, hordered.counted, hordered.settled,
    fun next hstep hleaves => unfinished_of_leaves_wave hreach hstep hleaves⟩
  · intro i j hi hj job hjob other hother hasks hothers
    exact hone i j hi hj (Crew.unfinished_ne_nil hjob hasks) (Crew.unfinished_ne_nil hother hothers)
  · intro nodes htargets
    rcases hordered.planned with hnil | ⟨commands, hcommands, hpart⟩
    · exact hnil ▸ ClusterCommand.bounds_nil nodes.length
    · exact (ClusterCommand.every_plan tree htargets commands hcommands).bounds hpart

-- The dispatcher gets to the first wave of its plan.
theorem exists_starting {wave : List Command} {waves : List (List Command)}
    (hwaves : (command.plan tree).waves = wave :: waves) :
    ∃ steps phases log,
      command.Reachable tree world ⟨.starting wave steps, [.empty], phases, log⟩ := by
  have hsteps : ∀ steps phases log, steps.filterMap (·.commands?) = wave :: waves →
      ∃ left entered told, Relation.ReflTransGen (command.Step tree world)
        ⟨.between steps, [], phases, log⟩ ⟨.starting wave left, [.empty], entered, told⟩ := by
    intro steps
    induction steps with
    | nil => exact fun _ _ hnone => nomatch hnone
    | cons step steps ih =>
        intro phases log hfirst
        cases step with
        | note entry =>
            obtain ⟨left, entered, told, hmore⟩ := ih phases (log ++ [entry]) hfirst
            exact ⟨left, entered, told, .head .tell hmore⟩
        | wave made =>
            obtain rfl : made.commands = wave := (List.cons.inj hfirst).1
            exact ⟨steps, _, _, .single .enter⟩
  exact hsteps (command.plan tree).steps [.resolvingTargets] [] hwaves

-- And a task can get to its first call before the others exist.
theorem exists_asking {made : Command} {wave : List Command} {waves : List (List Command)}
    {request : Request} {next : Reply → Dialogue (Except Failure String)}
    (hwaves : (command.plan tree).waves = (made :: wave) :: waves)
    (hdialogue : made.dialogue tree = .ask request next) :
    ∃ state, command.Reachable tree world state ∧
      state.unfinished = [⟨made, [], [], .asking request next⟩] := by
  obtain ⟨steps, phases, log, hreach⟩ := @exists_starting command tree world _ _ hwaves
  have hspawned := hreach.tail .spawn
  have hstarted := hspawned.tail (.work [] (.job [] .start))
  rw [hdialogue] at hstarted
  exact ⟨_, hstarted.tail (.work [] (.job [] .ask)), rfl⟩

-- A state in which an upload is under way, in a plan that ends where its source breaks off.
theorem isOrderly_brokenRows :
    ((ClusterCommand.forPair .addDir (some "rows")).plan
        (.single ⟨FileTree.namedRows, some .broken⟩)).outcome =
      .error (.io FileFault.broken.message) ∧
    ∃ state, (ClusterCommand.forPair .addDir (some "rows")).Reachable
        (.single ⟨FileTree.namedRows, some .broken⟩) .wild state ∧
      state.unfinished.map (·.underWay?) =
        [some ⟨"a", 1, .post, Wire.rowsPath, some Wire.rowsType, "id\tname\n1\tx\n"⟩] ∧
      state.IsOrderly (ClusterCommand.forPair .addDir (some "rows"))
        (.single ⟨FileTree.namedRows, some .broken⟩) .wild := by
  let command := ClusterCommand.forPair .addDir (some "rows")
  have hends := ClusterCommand.ends_brokenRows
  refine ⟨hends.outcome_eq, ?_⟩
  -- there is room for an upload in every wave, however many tasks there may be
  obtain ⟨wave, waves, hcut⟩ := exists_cutOpen_cons
    (command.settings.uploadsPerWave_pos Targets.pair.count) ("id\tname\n1\tx\n", 0)
    [("id\tname\n2\ty\n", 1)]
  have hchunks : ((pieces 1 ["1\tx", "2\ty"]).map (Source.chunkText "id\tname")).zipIdx =
      [("id\tname\n1\tx\n", 0), ("id\tname\n2\ty\n", 1)] := by decide
  have hwaves : command.sourceWaves .pair "id\tname" ["1\tx", "2\ty"] =
      command.uploadsOf .pair (("id\tname\n1\tx\n", 0) :: wave) ::
        waves.map (command.uploadsOf .pair) := by
    rw [← List.map_cons, ← hcut, ← hchunks]
    rfl
  obtain ⟨state, hreach, hbusy⟩ := exists_asking (hends.waves_eq.trans hwaves) rfl
  exact ⟨state, hreach, by rw [hbusy]; rfl, isOrderly_of_reachable hreach⟩

end ExecutionState

end IndexFleet
