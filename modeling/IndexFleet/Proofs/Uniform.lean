import IndexFleet.Proofs.Addressing
import IndexFleet.Proofs.Execution.FirstFailure
import IndexFleet.Proofs.Execution.Refinement
import IndexFleet.Proofs.Plan.Bulk
import IndexFleet.Proofs.Target

namespace IndexFleet

theorem givenArgument_givenArgument (argument : Option String) :
    givenArgument (givenArgument argument) = givenArgument argument := by
  cases argument with
  | none => rfl
  | some argument =>
      by_cases hargument : argument = ""
      · simp [givenArgument, hargument]
      · rw [givenArgument_of_ne_empty hargument, givenArgument_of_ne_empty hargument]

theorem CommandKind.name_of_ofName? {name : String} {kind : CommandKind}
    (hname : ofName? name = some kind) : kind.name = name := by
  have hfound := List.find?_some hname
  exact eq_of_beq hfound

theorem ClusterCommandKind.name_of_ofName? {name : String} {kind : CommandKind}
    (hname : ofName? name = some (.uniform kind)) : kind.name = name := by
  unfold ofName? at hname
  split at hname
  case h_4 =>
      obtain ⟨found, hfound, hsame⟩ := Option.map_eq_some_iff.mp hname
      cases hsame
      exact CommandKind.name_of_ofName? (Option.filter_eq_some_iff.mp hfound).1
  all_goals cases hname

-- How a command for all targets compares with the single commands that it stands for: its tasks do
-- what these do alone, and it succeeds if all of them do. Else it ends with a failure of theirs.
structure Run.IsProduct (run : Run) (tree : FileTree) (network : Network) (nodes : List Node)
    (singles : List Command) : Prop where
  waves : run.waves = [singles.map (CommandRun.of tree network)]
  requests : (run.waves.flatten.flatMap (·.transcript.calls)).map (·.1) =
    singles.flatMap fun single => ((single.dialogue tree).run network).calls.map (·.1)
  addressed : ∀ one ∈ run.waves.flatten, ∀ call ∈ one.transcript.calls,
    ∃ node ∈ nodes, call.1.host = node.host ∧ call.1.port = node.port
  succeeds : run.result = .ok () ↔
    ∀ single ∈ singles, ∃ answer, ((single.dialogue tree).run network).result = .ok answer
  fails : ∀ failure, run.result = .error failure →
    ∃ single ∈ singles, ((single.dialogue tree).run network).result = .error failure

namespace ClusterCommand

variable {command : ClusterCommand} {tree : FileTree} {network : Network}
  {targets : Targets} {run : Run}

theorem create_eq_ok {target name : String} {argument : Option String} {database : Database}
    {settings : Settings}
    (hcreate : create target name argument database settings = .ok command) :
    ClusterCommandKind.ofName? name = some command.kind ∧ command.target = target ∧
      command.argument = givenArgument argument ∧ command.database = database ∧
      command.settings = settings ∧
      (command.kind.needsArgument = true → (givenArgument argument).isSome = true) := by
  unfold create kindOfName at hcreate
  cases hname : ClusterCommandKind.ofName? name with
  | none => simp [hname, bind, Except.bind] at hcreate
  | some kind =>
      cases hmissing : kind.needsArgument && (givenArgument argument).isNone with
      | true => simp [hname, hmissing, bind, Except.bind] at hcreate
      | false =>
          cases hcheck : settings.check with
          | error fault =>
              simp [hname, hmissing, hcheck, bind, Except.bind, Except.mapError] at hcreate
          | ok =>
              simp only [hname, hmissing, hcheck, bind, Except.bind, Except.mapError] at hcreate
              obtain rfl := Except.ok.inj hcreate
              refine ⟨rfl, rfl, rfl, rfl, rfl, fun hneeds => ?_⟩
              simpa [hneeds] using hmissing

-- What the nodes get is what each of them gets alone.
theorem singles_of_given (command : ClusterCommand) {kind : CommandKind} {name : String}
    {argument : Option String} (hname : kind.name = name)
    (hgiven : kind.needsArgument = true → (givenArgument argument).isSome = true)
    (nodes : List Node) :
    List.Forall₂ (fun node single =>
      Command.create command.settings.timeouts node.host node.port name argument = .ok single)
      nodes (nodes.map (command.commandAt · kind (givenArgument argument))) := by
  refine List.forall₂_map_right_iff.mpr (List.forall₂_same.mpr fun node _ => ?_)
  have hmade := command.commandFor_eq node kind argument
  rw [commandFor, hname] at hmade
  rw [hmade]
  cases hneeds : kind.needsArgument with
  | false => simp
  | true => simp [Option.isSome_iff_ne_none.mp (hgiven hneeds)]

theorem failures_map_of_eq_nil_iff {singles : List Command} :
    WaveRun.failures (singles.map (CommandRun.of tree network)) = [] ↔
      ∀ single ∈ singles, ∃ answer, ((single.dialogue tree).run network).result = .ok answer := by
  rw [WaveRun.failures_eq_nil_iff, List.forall_mem_map]
  rfl

theorem takes_uniform {kind : CommandKind} (hkind : command.kind = .uniform kind)
    (htargets : command.database.targets command.target = .ok targets.nodes)
    (hgiven : kind.needsArgument = true → (givenArgument command.argument).isSome = true)
    (hrun : command.MayLeave tree (.replying network) run) :
    let singles := command.forEach targets kind (givenArgument command.argument)
    run.waves = [singles.map (CommandRun.of tree network)] ∧
      ((WaveRun.failures (singles.map (CommandRun.of tree network)) = [] ∧ run.result = .ok ()) ∨
        ∃ failure ∈ WaveRun.failures (singles.map (CommandRun.of tree network)),
          run.result = .error failure) := by
  obtain ⟨course, htakes, hwaves, hresult, _⟩ := hrun.takes id
  rw [plan_of_targets command tree targets htargets, planFor, hkind] at htakes
  simp only [everywhere_eq [] hgiven] at htakes
  obtain ⟨after, hafter, rfl⟩ := Plan.mayTake_notes_andThen.mp htakes
  obtain ⟨runs, hruns, hcases⟩ := Plan.mayTake_wave_iff.mp hafter
  rw [hruns.runs_eq] at hcases
  rw [hwaves, hresult]
  rcases hcases with ⟨hclean, rfl⟩ | ⟨failure, hfailure, rfl⟩
  · exact ⟨rfl, .inl ⟨hclean, rfl⟩⟩
  · exact ⟨rfl, .inr ⟨failure, hfailure, rfl⟩⟩

theorem isProduct_of_mayLeave (targets : Targets) {kind : CommandKind}
    (hkind : command.kind = .uniform kind)
    (htargets : command.database.targets command.target = .ok targets.nodes)
    (hgiven : kind.needsArgument = true → (givenArgument command.argument).isSome = true)
    (hrun : command.MayLeave tree (.replying network) run) :
    run.IsProduct tree network targets.nodes
      (command.forEach targets kind (givenArgument command.argument)) := by
  obtain ⟨hwaves, hcases⟩ := takes_uniform hkind htargets hgiven hrun
  constructor
  · exact hwaves
  · rw [hwaves, List.flatten_singleton, List.flatMap_map, List.map_flatMap]
    rfl
  · rw [hwaves, List.flatten_singleton]
    intro one hone call hcall
    obtain ⟨single, hsingle, rfl⟩ := List.mem_map.mp hone
    obtain ⟨node, hnode, rfl⟩ := List.mem_map.mp hsingle
    let single := command.commandAt node kind (givenArgument command.argument)
    have hreplies : ∀ request, (World.replying network).mayReply request (network request) :=
      fun _ => rfl
    have hleave := Dialogue.mayLeave_of_network hreplies (single.dialogue tree)
    exact ⟨node, hnode, (single.addresses_dialogue tree).of_mayLeave hleave call hcall⟩
  · rw [← failures_map_of_eq_nil_iff]
    rcases hcases with ⟨hclean, hresult⟩ | ⟨failure, hfailure, hresult⟩
    · exact iff_of_true hresult hclean
    · refine iff_of_false (fun hok => nomatch hresult.symm.trans hok) ?_
      exact List.ne_nil_of_mem hfailure
  · intro failure hfailure
    rcases hcases with ⟨_, hresult⟩ | ⟨brought, hbrought, hresult⟩
    · exact nomatch hresult.symm.trans hfailure
    · obtain rfl := Except.error.inj (hresult.symm.trans hfailure)
      obtain ⟨one, hone, hcame⟩ := WaveRun.mem_failures.mp hbrought
      obtain ⟨single, hsingle, rfl⟩ := List.mem_map.mp hone
      exact ⟨single, hsingle, hcame⟩

-- A command for all targets is as good as its single commands, each of them alone, in whatever
-- order its tasks take their turns.
theorem isProduct_of_uniform {target name : String} {argument : Option String}
    {database : Database} {settings : Settings} {kind : CommandKind} {nodes : List Node}
    (hcreate : create target name argument database settings = .ok command)
    (hkind : command.kind = .uniform kind) (htargets : database.targets target = .ok nodes) :
    ∃ singles : List Command,
      List.Forall₂ (fun node single =>
        Command.create settings.timeouts node.host node.port name argument = .ok single)
        nodes singles ∧
      (command.run tree network).IsProduct tree network nodes singles ∧
      ∀ state run, command.Reachable tree (.replying network) state → state.run? = some run →
        run.IsProduct tree network nodes singles ∧
          ∀ failure, run.result = .error failure ↔
            ExecutionState.RecordedFirst command tree (.replying network) state failure := by
  obtain ⟨hname, rfl, hargument, rfl, rfl, hgiven⟩ := create_eq_ok hcreate
  rw [hkind] at hname hgiven
  have hrepeated : kind.needsArgument = true → (givenArgument command.argument).isSome = true := by
    rw [hargument, givenArgument_givenArgument]
    exact hgiven
  let targets : Targets := ⟨nodes, Database.nonempty_of_targets htargets⟩
  have hall : ∀ run, command.MayLeave tree (.replying network) run →
      run.IsProduct tree network nodes
        (command.forEach targets kind (givenArgument command.argument)) :=
    fun run hrun => isProduct_of_mayLeave targets hkind htargets hrepeated hrun
  have houtcome : (command.plan tree).outcome = .ok () := by
    rw [command.plan_of_targets tree targets htargets, planFor, hkind]
    exact ((Plan.makes_notes _).andThen (everywhere_of_given [] hrepeated)).outcome
  refine ⟨_, ?_, hall _ (mayLeave_run (fun _ => rfl) command tree), fun state run hreach hrun => ?_⟩
  · rw [hargument, givenArgument_givenArgument]
    exact command.singles_of_given (ClusterCommandKind.name_of_ofName? hname) hgiven nodes
  · refine ⟨hall run ⟨state, hreach, hrun⟩, fun failure => ?_⟩
    exact ExecutionState.result_eq_error_iff houtcome hreach hrun

def firstUnreachable : Network := fun request =>
  if request.host = "a" then .refused else .answered 200 []

theorem isProduct_ping :
    (∃ failure, ((forPair (.uniform .ping) none).run ⟨[], []⟩ firstUnreachable).result =
      .error failure) ∧
      ∃ singles, ((forPair (.uniform .ping) none).run ⟨[], []⟩ firstUnreachable).IsProduct
        ⟨[], []⟩ firstUnreachable Targets.pair.nodes singles := by
  have hcreate : create "all" "ping" none (.indexed Targets.pair.nodes) { maxLinesPerChunk := 1 } =
      .ok (forPair (.uniform .ping) none) := rfl
  obtain ⟨singles, _, hproduct, _⟩ := isProduct_of_uniform hcreate rfl targets_pair
  exact ⟨⟨_, rfl⟩, singles, hproduct⟩

end ClusterCommand

end IndexFleet
