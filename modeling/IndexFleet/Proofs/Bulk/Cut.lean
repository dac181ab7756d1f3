import IndexFleet.Proofs.Bulk.Sources
import IndexFleet.Proofs.Execution.Sequential
import IndexFleet.Proofs.Upload

namespace IndexFleet

variable {command : ClusterCommand} {tree : FileTree} {world : World} {run free : Run}

namespace ClusterCommand

def IsBulk (command : ClusterCommand) : Prop :=
  command.kind = .addDir ∨ command.kind = .updateDir ∨ command.kind = .batchDelete

-- What a bulk command makes are uploads and deletions, each with its argument.
theorem IsBulk.of_mem_plan (hbulk : command.IsBulk) {commands : List Command} {made : Command}
    (hcommands : commands ∈ (command.plan tree).waves) (hmade : made ∈ commands) :
    (made.kind = .addData ∨ made.kind = .delete) ∧ made.argument.isSome = true := by
  have hadds : ∀ limit, IsWaveOf .addData limit commands →
      (made.kind = .addData ∨ made.kind = .delete) ∧ made.argument.isSome = true :=
    fun limit hwave => ⟨.inl (hwave.kind_eq made hmade), hwave.given made hmade rfl⟩
  have hdeletes : ∀ limit, IsWaveOf .delete limit commands →
      (made.kind = .addData ∨ made.kind = .delete) ∧ made.argument.isSome = true :=
    fun limit hwave => ⟨.inr (hwave.kind_eq made hmade), hwave.given made hmade rfl⟩
  obtain ⟨count, hwave⟩ := isWave_of_mem_plan hcommands
  unfold IsWave at hwave
  rcases hbulk with hkind | hkind | hkind <;> rw [hkind] at hwave
  · exact hadds _ hwave
  · exact hwave.elim (hadds _) (hdeletes _)
  · exact hdeletes _ hwave

theorem IsBulk.clean_of_accepting (hbulk : command.IsBulk)
    (hfree : command.MayLeave tree .accepting free) : ∀ wave ∈ free.waves, wave.failures = [] := by
  intro wave hwave
  rw [WaveRun.failures_eq_nil_iff]
  intro one hone
  obtain ⟨hkind, hargument⟩ :=
    hbulk.of_mem_plan (hfree.planned hwave) (List.mem_map_of_mem hone)
  exact Command.result_of_accepting hkind hargument (hfree.complete id wave hwave one hone)

-- Where all is accepted, a run does what it is made for.
theorem IsBulk.of_accepting {commands : List (List Command)} (hbulk : command.IsBulk)
    (hmakes : (command.plan tree).Makes commands) (hfree : command.MayLeave tree .accepting free) :
    free.commands = commands ∧ free.result = .ok () := by
  obtain ⟨hcommands, hresult⟩ := hfree.follows.of_clean (hbulk.clean_of_accepting hfree)
  exact ⟨hcommands.trans hmakes.waves, hresult.trans hmakes.outcome⟩

end ClusterCommand

-- How a run compares with one in which nothing fails: it is the beginning of that one, cut at the
-- end of the first wave with a failing task if there is any.
structure Run.IsCutOf (run free : Run) (tree : FileTree) (world : World) : Prop where
  commands : run.commands <+: free.commands
  whole : (∀ wave ∈ run.waves, wave.failures = []) →
    run.commands = free.commands ∧ run.result = free.result
  cut : (∃ wave ∈ run.waves, wave.failures ≠ []) →
    ∃ earlier last failure, run.waves = earlier ++ [last] ∧
      (∀ wave ∈ earlier, wave.failures = []) ∧ failure ∈ last.failures ∧
      run.result = .error failure ∧ run.phases.getLast? = some .failed
  -- every command that was made has been run to its end
  complete : ∀ wave ∈ run.waves, ∀ one ∈ wave,
    Dialogue.MayLeave world (one.command.dialogue tree) one.transcript

namespace ClusterCommand

theorem isCutOf_of_mayLeave (hbulk : command.IsBulk) (hcalm : ¬world.mayPanic)
    (hrun : command.MayLeave tree world run) (hfree : command.MayLeave tree .accepting free) :
    run.IsCutOf free tree world := by
  obtain ⟨hcommands, hresult⟩ := hfree.follows.of_clean (hbulk.clean_of_accepting hfree)
  refine ⟨?_, fun hclean => ?_, fun hhurt => ?_, hrun.complete hcalm⟩
  · rw [hcommands]
    exact hrun.follows.commands_prefix
  · obtain ⟨hsame, houtcome⟩ := hrun.follows.of_clean hclean
    exact ⟨hsame.trans hcommands.symm, houtcome.trans hresult.symm⟩
  · cases hrun.follows with
    | whole _ hclean _ =>
        obtain ⟨wave, hwave, hfailures⟩ := hhurt
        exact absurd (hclean wave hwave) hfailures
    | @cut earlier last failure _ hwaves hclean hfailure hend =>
        refine ⟨earlier, last, failure, hwaves, hclean, hfailure, hend, ?_⟩
        rw [hrun.phases, hend, List.getLast?_concat]
        rfl

def secondTargetSilent : Network := fun request =>
  if request.host = "b" then .dropped else .answered 200 []

-- The upload of the second row fails, whether it shares its wave with the first one or not.
theorem exists_failure_brokenRows :
    ∃ failure, failure.isTransport = true ∧
      ((forPair .addDir (some "rows")).run (.single ⟨FileTree.namedRows, some .broken⟩)
        secondTargetSilent).result = .error failure := by
  let command := forPair .addDir (some "rows")
  let tree : FileTree := .single ⟨FileTree.namedRows, some .broken⟩
  let second : Command := command.commandAt (.bare "b" 2 .slave none) .addData
    (some "id\tname\n2\ty\n")
  have hrun : command.MayLeave tree (.replying secondTargetSilent)
      (command.run tree secondTargetSilent) := mayLeave_run (fun _ => rfl) _ _
  have huploads : (command.plan tree).waves.flatten =
      command.uploadsOf .pair [("id\tname\n1\tx\n", 0), ("id\tname\n2\ty\n", 1)] := by
    rw [ends_brokenRows.waves_eq, flatten_sourceWaves]
    rfl
  have hsecond : second ∈ (command.plan tree).waves.flatten :=
    huploads ▸ List.mem_cons_of_mem _ List.mem_cons_self
  obtain ⟨commands, hcommands, hmem⟩ := List.mem_flatten.mp hsecond
  cases hrun.follows with
  | whole hsame hclean _ =>
      rw [← hsame] at hcommands
      obtain ⟨wave, hwave, rfl⟩ := List.mem_map.mp hcommands
      obtain ⟨one, hone, hmade⟩ := List.mem_map.mp hmem
      obtain ⟨answer, hanswer⟩ := WaveRun.failures_eq_nil_iff.mp (hclean wave hwave) one hone
      rw [Dialogue.mayLeave_replying (hrun.complete id wave hwave one hone), hmade] at hanswer
      exact nomatch hanswer
  | @cut earlier last failure _ hwaves _ hfailure hresult =>
      refine ⟨failure, ?_, hresult⟩
      have hlast : last ∈ (command.run tree secondTargetSilent).waves :=
        hwaves ▸ List.mem_append_right _ List.mem_cons_self
      obtain ⟨one, hone, hcame⟩ := WaveRun.mem_failures.mp hfailure
      obtain ⟨limit, hadds⟩ := isWaveOf_of_addDir rfl (hrun.planned hlast)
      have hmade : one.command ∈ last.commands := List.mem_map_of_mem hone
      obtain ⟨argument, hargument⟩ := Option.isSome_iff_exists.mp (hadds.given _ hmade rfl)
      have hleave := hrun.complete id last hlast one hone
      rw [Command.dialogue_addData (hadds.kind_eq _ hmade) hargument] at hleave
      exact Client.isTransport_of_pushWithFallback hleave hcame

-- Without any failing task the run ends where the source breaks off. A failing task comes first,
-- even if the source broke off before its wave was full.
theorem isCutOf_brokenRows :
    ((forPair .addDir (some "rows")).run (.single ⟨FileTree.namedRows, some .broken⟩)
        fun _ => .answered 200 []).result = .error (.io FileFault.broken.message) ∧
      (∃ failure, failure.isTransport = true ∧
        ((forPair .addDir (some "rows")).run (.single ⟨FileTree.namedRows, some .broken⟩)
          secondTargetSilent).result = .error failure) ∧
      ((forPair .addDir (some "rows")).run (.single ⟨FileTree.namedRows, some .broken⟩)
        secondTargetSilent).IsCutOf
          ((forPair .addDir (some "rows")).run (.single ⟨FileTree.namedRows, some .broken⟩)
            fun _ => .answered 200 []) (.single ⟨FileTree.namedRows, some .broken⟩) .calm := by
  have hbulk : (forPair .addDir (some "rows")).IsBulk := .inl rfl
  have hfree : (forPair .addDir (some "rows")).MayLeave
      (.single ⟨FileTree.namedRows, some .broken⟩) .accepting
      ((forPair .addDir (some "rows")).run (.single ⟨FileTree.namedRows, some .broken⟩)
        fun _ => .answered 200 []) := mayLeave_run (fun _ => rfl) _ _
  refine ⟨?_, exists_failure_brokenRows, ?_⟩
  · rw [(hfree.follows.of_clean (hbulk.clean_of_accepting hfree)).2]
    exact ends_brokenRows.outcome_eq
  · exact isCutOf_of_mayLeave hbulk id (mayLeave_run (fun _ => trivial) _ _) hfree

end ClusterCommand

end IndexFleet
