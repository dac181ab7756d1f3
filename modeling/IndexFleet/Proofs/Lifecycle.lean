import IndexFleet.Proofs.Addressing
import IndexFleet.Proofs.Bulk.Reading
import IndexFleet.Proofs.Execution.Barrier
import IndexFleet.Proofs.Execution.Termination

namespace IndexFleet

variable {tree : FileTree} {world : World}

def Request.GoesTo (request : Request) (host : String) (port : Port) : Prop :=
  request.host = host ∧ request.port = port

namespace Job

-- All calls of a job, the one that is on its way as well.
def requests (job : Job) : List Request := job.calls.map (·.1) ++ job.underWay?.toList

-- A job has called nobody but its server, and will not.
def StaysAtServer (job : Job) : Prop :=
  (∀ request ∈ job.requests,
    request.GoesTo job.command.client.host job.command.client.port) ∧
    match job.stage with
    | .working rest => rest.Addresses job.command.client.host job.command.client.port
    | .asking _ next => ∀ reply,
        (next reply).Addresses job.command.client.host job.command.client.port
    | .counted | .ceased _ | .recorded _ | .finished _ => True

theorem staysAtServer_ofCommand (command : Command) : (ofCommand command).StaysAtServer :=
  ⟨fun _ hrequest => (nomatch hrequest), trivial⟩

variable {group after : SyncGroup} {job next : Job} {told : Log}

theorem Step.staysAtServer (hstep : job.Step tree world group after next told)
    (hstays : job.StaysAtServer) : next.StaysAtServer := by
  obtain ⟨hcalls, hrest⟩ := hstays
  cases hstep with
  | @start command => exact ⟨hcalls, command.addresses_dialogue tree⟩
  | say => exact ⟨hcalls, hrest⟩
  | @ask command calls log request =>
      refine ⟨List.forall_mem_append.mpr ⟨?_, List.forall_mem_singleton.mpr hrest.1⟩, hrest.2⟩
      simpa [requests, underWay?] using hcalls
  | hear =>
      refine ⟨?_, hrest _⟩
      simpa [requests, underWay?] using hcalls
  | cease | panic | record | leave => exact ⟨hcalls, trivial⟩

end Job

namespace ClusterCommand

variable {command : ClusterCommand} {targets : Targets} {tables : List Table}

-- The commands of a wave go to nodes of a list.
def GoesTo (nodes : List Node) (commands : List Command) : Prop :=
  ∀ made ∈ commands, ∃ node ∈ nodes, made.client.host = node.host ∧ made.client.port = node.port

theorem goesTo_forEach (kind : CommandKind) (argument : Option String) :
    GoesTo targets.nodes (command.forEach targets kind argument) := by
  intro made hmade
  obtain ⟨node, hnode, rfl⟩ := List.mem_map.mp hmade
  exact ⟨node, hnode, rfl, rfl⟩

theorem goesTo_uploadsOf (chunks : List (String × Nat)) :
    GoesTo targets.nodes (command.uploadsOf targets chunks) := by
  intro made hmade
  obtain ⟨chunk, _, rfl⟩ := List.mem_map.mp hmade
  exact ⟨targets.turn chunk.2, List.get_mem _ _, rfl, rfl⟩

theorem goesTo_sourceWaves (header : String) (rows : List String) :
    ∀ commands ∈ command.sourceWaves targets header rows, GoesTo targets.nodes commands := by
  intro commands hcommands
  obtain ⟨chunks, _, rfl⟩ := List.mem_map.mp hcommands
  exact goesTo_uploadsOf chunks

theorem goesTo_deleteWaves (table : Table) :
    ∀ commands ∈ command.deleteWaves targets table, GoesTo targets.nodes commands := by
  intro commands hcommands
  obtain ⟨id, _, rfl⟩ := List.mem_map.mp hcommands
  exact goesTo_forEach _ _

theorem goesTo_tableWaves (table : Table) :
    ∀ commands ∈ command.tableWaves targets table, GoesTo targets.nodes commands := by
  intro commands hcommands
  obtain ⟨stage, _, hstage⟩ := List.mem_flatMap.mp hcommands
  cases stage with
  | uniform | updateDir => exact nomatch hstage
  | addDir => exact goesTo_sourceWaves _ _ commands hstage
  | batchDelete => exact goesTo_deleteWaves table commands hstage

theorem goesTo_partWaves (table : Table) :
    ∀ commands ∈ command.partWaves targets table, GoesTo targets.nodes commands := by
  unfold partWaves
  split
  · exact goesTo_sourceWaves _ _
  · exact goesTo_deleteWaves table

-- Every wave of a command goes to its targets.
theorem ComesTo.goesTo {waves : List (List Command)} {outcome : Except Failure Unit}
    (hcomes : command.ComesTo tree waves outcome) : ∀ commands ∈ waves,
      ∃ nodes, command.database.targets command.target = .ok nodes ∧ GoesTo nodes commands := by
  have htables : ∀ {targets : Targets} {tables : List Table},
      command.database.targets command.target = .ok targets.nodes →
      ∀ commands ∈ tables.flatMap (command.tableWaves targets),
        ∃ nodes, command.database.targets command.target = .ok nodes ∧ GoesTo nodes commands := by
    intro targets tables htargets commands hcommands
    obtain ⟨table, _, htable⟩ := List.mem_flatMap.mp hcommands
    exact ⟨targets.nodes, htargets, goesTo_tableWaves table commands htable⟩
  cases hcomes with
  | unresolved | unmade | unlisted => exact fun _ hcommands => nomatch hcommands
  | everywhere _ htargets =>
      exact List.forall_mem_singleton.mpr ⟨_, htargets, goesTo_forEach _ _⟩
  | upTo _ htargets | all _ htargets => exact htables htargets
  | part _ htargets =>
      exact List.forall_mem_append.mpr
        ⟨htables htargets, fun commands hcommands =>
          ⟨_, htargets, goesTo_partWaves _ commands hcommands⟩⟩

-- The number of waves that upload a table. If the last wave is full, an empty one follows.
def uploadCount (command : ClusterCommand) (targets : Targets) (table : Table) : Nat :=
  pieceCount command.settings.maxLinesPerChunk table.2.length /
    command.settings.uploadsPerWave targets.count + 1

def deletionCount (table : Table) : Nat := (Source.idsOf table.2).length

def waveCount (command : ClusterCommand) (targets : Targets) (tables : List Table) : Nat :=
  match command.kind with
  | .uniform _ => 1
  | .addDir => (tables.map (command.uploadCount targets)).sum
  | .batchDelete => (tables.map deletionCount).sum
  | .updateDir => (tables.map deletionCount).sum + (tables.map (command.uploadCount targets)).sum

theorem length_sourceWaves (table : Table) :
    (command.sourceWaves targets table.1 table.2).length = command.uploadCount targets table := by
  rw [sourceWaves, List.length_map, length_cutOpen, List.length_zipIdx, List.length_map,
    length_pieces]
  rfl

theorem length_deleteWaves (table : Table) :
    (command.deleteWaves targets table).length = deletionCount table :=
  List.length_map _

theorem length_tableWaves (hbulk : command.IsBulk) :
    (tables.flatMap (command.tableWaves targets)).length = command.waveCount targets tables := by
  rw [List.length_flatMap]
  unfold waveCount tableWaves
  rcases hbulk with hkind | hkind | hkind <;>
    simp [hkind, ClusterCommandKind.stages, stageWaves, length_sourceWaves, length_deleteWaves]

-- A call to one of the nodes that the target of a command means.
def HasTarget (command : ClusterCommand) (request : Request) : Prop :=
  ∃ nodes, command.database.targets command.target = .ok nodes ∧
    ∃ node ∈ nodes, request.GoesTo node.host node.port

variable {state : ExecutionState} {run : Run}

theorem hasTarget_of_reachable (hreach : command.Reachable tree world state) :
    ∀ crew ∈ state.crews, ∀ job ∈ crew.jobs, ∀ request ∈ job.requests,
      command.HasTarget request := by
  intro crew hcrew job hjob request hrequest
  have hstays := ExecutionState.forall_jobs_of_reachable Job.staysAtServer_ofCommand
    (fun hstep => hstep.staysAtServer) hreach crew hcrew job hjob
  obtain ⟨hhost, hport⟩ := hstays.1 request hrequest
  obtain ⟨commands, hcommands, hpart⟩ :=
    (ExecutionState.followsPlan_of_reachable hreach).planned crew hcrew
  obtain ⟨nodes, hnodes, hgoes⟩ := (command.comesTo_plan tree).goesTo commands hcommands
  obtain ⟨node, hnode, hsame⟩ := hgoes job.command (hpart.subset (List.mem_map_of_mem hjob))
  exact ⟨nodes, hnodes, node, hnode, hhost.trans hsame.1, hport.trans hsame.2⟩

-- A run that has gone through the phases of its waves, called nobody but its targets and ended as
-- its result says. If it succeeds, so many waves were needed for files that all could be read to
-- their ends.
structure FollowsLifecycle (command : ClusterCommand) (tree : FileTree) (run : Run) : Prop where
  phases : run.phases = Phase.lifecycle run.waves.length ++ [.closing run.result]
  aimed : ∀ wave ∈ run.waves, ∀ one ∈ wave, ∀ call ∈ one.transcript.calls,
    command.HasTarget call.1
  counted : 0 < command.settings.maxLinesPerChunk → run.result = .ok () → ∃ targets tables,
    command.database.targets command.target = .ok targets.nodes ∧
      (command.IsBulk → ∃ paths, (tree.inputFiles (command.argument.getD "")).1 = .ok paths ∧
        tree.HoldsAll paths tables) ∧
      run.waves.length = command.waveCount targets tables
  failing : (∃ wave ∈ run.waves, wave.failures ≠ []) →
    [.dispatching, .draining, .failed] <:+ run.phases

theorem MayLeave.aimed (hrun : command.MayLeave tree world run) :
    ∀ wave ∈ run.waves, ∀ one ∈ wave, ∀ call ∈ one.transcript.calls,
      command.HasTarget call.1 := by
  obtain ⟨result, crews, phases, log, hreach, rfl⟩ := hrun.exists_returned
  intro wave hwave one hone call hcall
  obtain ⟨crew, hcrew, rfl⟩ := mem_runsOf.mp hwave
  obtain ⟨job, hjob, rfl⟩ := List.mem_map.mp hone
  exact hasTarget_of_reachable hreach crew hcrew job hjob call.1
    (List.mem_append_left _ (List.mem_map_of_mem hcall))

theorem ComesTo.counted {waves : List (List Command)}
    (hlines : 0 < command.settings.maxLinesPerChunk)
    (hcomes : command.ComesTo tree waves (.ok ())) :
    ∃ targets tables, command.database.targets command.target = .ok targets.nodes ∧
      (command.IsBulk → ∃ paths, (tree.inputFiles (command.argument.getD "")).1 = .ok paths ∧
        tree.HoldsAll paths tables) ∧
      waves.length = command.waveCount targets tables := by
  cases hcomes with
  | @everywhere kind targets hkind htargets =>
      refine ⟨targets, [], htargets, fun hbulk => ?_, ?_⟩
      · simp [IsBulk, hkind] at hbulk
      · rw [waveCount, hkind]
        rfl
  | @all targets paths tables hbulk htargets hpaths hall =>
      have hholds : tree.HoldsAll paths tables :=
        hall.imp fun _ _ => (takes_iff fun _ => hlines).mp
      exact ⟨targets, tables, htargets, fun _ => ⟨paths, hpaths, hholds⟩, length_tableWaves hbulk⟩

theorem MayLeave.counted (hrun : command.MayLeave tree world run)
    (hlines : 0 < command.settings.maxLinesPerChunk) (hok : run.result = .ok ()) :
    ∃ targets tables, command.database.targets command.target = .ok targets.nodes ∧
      (command.IsBulk → ∃ paths, (tree.inputFiles (command.argument.getD "")).1 = .ok paths ∧
        tree.HoldsAll paths tables) ∧
      run.waves.length = command.waveCount targets tables := by
  rcases hrun.comesTo_or_fails with ⟨hcomes, _⟩ | ⟨failure, hfailure, _⟩
  · rw [hok] at hcomes
    have hlength : run.commands.length = run.waves.length := List.length_map _
    exact hlength ▸ hcomes.counted hlines
  · exact nomatch hok.symm.trans hfailure

theorem MayLeave.failing (hrun : command.MayLeave tree world run)
    (hhurt : ∃ wave ∈ run.waves, wave.failures ≠ []) :
    [.dispatching, .draining, .failed] <:+ run.phases := by
  cases hrun.follows with
  | whole _ hclean _ =>
      obtain ⟨wave, hwave, hfailures⟩ := hhurt
      exact absurd (hclean wave hwave) hfailures
  | @cut earlier last failure _ hwaves _ _ hresult =>
      rw [hrun.phases, hresult, hwaves, List.length_append, List.length_singleton,
        Phase.lifecycle_succ, List.append_assoc]
      exact List.suffix_append _ _

theorem MayLeave.followsLifecycle (hrun : command.MayLeave tree world run) :
    command.FollowsLifecycle tree run :=
  ⟨hrun.phases, hrun.aimed, hrun.counted, hrun.failing⟩

theorem timely_of_reachable (hreach : command.Reachable tree world state) :
    ∀ crew ∈ state.crews, ∀ job ∈ crew.jobs, job.underWay?.isSome = true →
      state.crews.head? = some crew ∧
        (state.phases = Phase.lifecycle (state.crews.length - 1) ++ [.dispatching] ∨
          state.phases = Phase.lifecycle state.crews.length) := by
  intro crew hcrew job hjob hasking
  have hbusy := Crew.unfinished_ne_nil hjob hasking
  have hlatest : ∀ {latest : Crew} {earlier : List Crew}, crew ∈ latest :: earlier →
      (∀ other ∈ earlier, other.Clean) → latest = crew := by
    intro latest earlier hmem hclean
    rcases List.mem_cons.mp hmem with rfl | hold
    · rfl
    · exact absurd (hclean crew hold).unfinished hbusy
  cases ExecutionState.followsPlan_of_reachable hreach with
  | between _ hclean | finished _ hclean =>
      exact absurd (hclean crew hcrew).unfinished hbusy
  | gaveUp hquiet _ _ hclean =>
      obtain rfl := hlatest hcrew hclean
      exact absurd hquiet.unfinished hbusy
  | starting _ _ _ hclean => exact ⟨congrArg some (hlatest hcrew hclean), .inl rfl⟩
  | draining _ _ _ hclean => exact ⟨congrArg some (hlatest hcrew hclean), .inr rfl⟩

-- What holds of all executions of a command, whatever the servers answer, however the tasks take
-- their turns and even if tasks panic.
structure HasLifecycle (command : ClusterCommand) (tree : FileTree) (world : World) : Prop where
  -- none of them goes on for ever
  ends : WellFounded fun next state => command.Step tree world state next
  -- and none comes to a standstill before it returns, if something comes of every call
  goesOn : (∀ request, ∃ reply, world.mayReply request reply) →
    ∀ state, command.Reachable tree world state → state.run? = none →
      ∃ next, command.Step tree world state next
  -- a call that is under way belongs to the latest wave, which is being dispatched or drained
  timely : ∀ state, command.Reachable tree world state → ∀ crew ∈ state.crews,
    ∀ job ∈ crew.jobs, job.underWay?.isSome = true → state.crews.head? = some crew ∧
      (state.phases = Phase.lifecycle (state.crews.length - 1) ++ [.dispatching] ∨
        state.phases = Phase.lifecycle state.crews.length)
  aimed : ∀ state, command.Reachable tree world state → ∀ crew ∈ state.crews,
    ∀ job ∈ crew.jobs, ∀ request ∈ job.requests, command.HasTarget request
  runs : ∀ run, command.MayLeave tree world run → command.FollowsLifecycle tree run

theorem hasLifecycle (command : ClusterCommand) (tree : FileTree) :
    (∀ world, command.HasLifecycle tree world) ∧
      ∀ network : Network, command.FollowsLifecycle tree (command.run tree network) := by
  refine ⟨fun world => ?_, fun network => ?_⟩
  · constructor
    · exact command.wellFounded_step tree world
    · exact fun hreplies state hreach hrun => exists_step hreplies hreach hrun
    · exact fun state hreach => timely_of_reachable hreach
    · exact fun state hreach => hasTarget_of_reachable hreach
    · exact fun run hrun => hrun.followsLifecycle
  · have hrun : command.MayLeave tree .calm (command.run tree network) :=
      mayLeave_run (fun _ => trivial) command tree
    exact hrun.followsLifecycle

end ClusterCommand

end IndexFleet
