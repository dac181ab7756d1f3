import IndexFleet.Proofs.Bulk.Cut
import IndexFleet.Proofs.Target

namespace IndexFleet

namespace FileTree

-- The tables in some files, all of which can be taken in.
def HoldsAll (tree : FileTree) (paths : List String) (tables : List Table) : Prop :=
  List.Forall₂ (fun path table => tree.Holds path table.1 table.2) paths tables

-- What there is to read in a file that can be opened, and why it breaks off there if that is not
-- all.
def Opens (tree : FileTree) (path : String) (table : Table) (fault : Option FileFault) : Prop :=
  ∃ source, (Source.ofFile tree path).1 = .ok source ∧ (source.header, source.texts) = table ∧
    source.fault = fault

theorem opens_none_iff {tree : FileTree} {path : String} {table : Table} :
    tree.Opens path table none ↔ tree.Holds path table.1 table.2 := by
  constructor
  · rintro ⟨source, hsource, rfl, hwhole⟩
    exact holds_of_ofFile hsource hwhole
  · intro hholds
    obtain ⟨source, hsource, hheader, hrows, hwhole⟩ := hholds.ofFile
    exact ⟨source, hsource, Prod.ext hheader hrows, hwhole⟩

end FileTree

-- What is done with each file, one after the other.
def ClusterCommandKind.stages : ClusterCommandKind → List ClusterCommandKind
  | uniform _ => []
  | addDir => [addDir]
  | updateDir => [batchDelete, addDir]
  | batchDelete => [batchDelete]

namespace ClusterCommand

def stagePlan (command : ClusterCommand) (tree : FileTree) (targets : Targets) (path : String) :
    ClusterCommandKind → Plan
  | .addDir => command.addFile tree targets path
  | .batchDelete => command.deleteFile tree targets path
  | _ => .done

variable {command : ClusterCommand} {tree : FileTree} {targets : Targets} {path : String}
  {paths : List String} {tables : List Table} {failure : Failure} {world : World}

-- Without targets every command fails in the same way.
theorem exists_targets (command : ClusterCommand) :
    (∃ failure, ∀ (kind : ClusterCommandKind) (argument : Option String) (tree : FileTree),
        ({ command with kind, argument } : ClusterCommand).plan tree = .fail failure) ∨
      ∃ targets : Targets, command.database.targets command.target = .ok targets.nodes := by
  cases htargets : command.database.targets command.target with
  | error fault =>
      exact .inl ⟨fault.failure, fun _ _ _ => by simp only [plan, htargets]⟩
  | ok nodes => exact .inr ⟨⟨nodes, Database.nonempty_of_targets htargets⟩, rfl⟩

theorem isBulk_or_uniform (command : ClusterCommand) :
    command.IsBulk ∨ ∃ kind, command.kind = .uniform kind := by
  unfold IsBulk
  cases command.kind with
  | uniform kind => exact .inr ⟨kind, rfl⟩
  | addDir | updateDir | batchDelete => simp

theorem IsBulk.stages_ne_nil (hbulk : command.IsBulk) : command.kind.stages ≠ [] := by
  rcases hbulk with hkind | hkind | hkind <;> rw [hkind] <;> exact List.cons_ne_nil _ _

theorem IsBulk.planFor_eq (hbulk : command.IsBulk) :
    command.planFor tree targets = command.forSources tree fun path =>
      Plan.sequence (command.kind.stages.map (command.stagePlan tree targets path)) := by
  rcases hbulk with hkind | hkind | hkind <;>
    simp only [planFor, hkind, ClusterCommandKind.stages, stagePlan, List.map_cons, List.map_nil,
      Plan.sequence_cons, Plan.sequence_nil, Plan.andThen_done]

-- A stage by itself is a bulk command of one stage.
theorem stages_of_mem {kind stage : ClusterCommandKind} (hstage : stage ∈ kind.stages) :
    stage = .addDir ∨ stage = .batchDelete := by
  cases kind <;> simp_all [ClusterCommandKind.stages]
  tauto

def takeIn (command : ClusterCommand) (tree : FileTree) (targets : Targets) (path : String) :
    Plan :=
  Plan.sequence (command.kind.stages.map (command.stagePlan tree targets path))

-- The waves that delete the documents of a table: one for each row that has an id.
def deleteWaves (command : ClusterCommand) (targets : Targets) (table : Table) :
    List (List Command) :=
  (Source.idsOf table.2).map fun id =>
    command.forEach targets .delete (some s!"{Source.idOf table.1}:{id}")

-- Rows are deleted by their ids, and then they are uploaded.
def updateWaves (command : ClusterCommand) (targets : Targets) (table : Table) :
    List (List Command) :=
  command.deleteWaves targets table ++ command.sourceWaves targets table.1 table.2

def stageWaves (command : ClusterCommand) (targets : Targets) (table : Table) :
    ClusterCommandKind → List (List Command)
  | .addDir => command.sourceWaves targets table.1 table.2
  | .batchDelete => command.deleteWaves targets table
  | _ => []

def tableWaves (command : ClusterCommand) (targets : Targets) (table : Table) :
    List (List Command) :=
  command.kind.stages.flatMap (command.stageWaves targets table)

-- With no rows in a chunk nobody gets to the end of a file, or to where it breaks off.
def MeetsEnds (command : ClusterCommand) : Prop :=
  command.kind = .addDir → 0 < command.settings.maxLinesPerChunk

-- A file that a command gets through without an error.
def Takes (command : ClusterCommand) (tree : FileTree) (path : String) (table : Table) : Prop :=
  ∃ fault, tree.Opens path table fault ∧ (command.MeetsEnds → fault = none)

theorem takes_iff (hmeets : command.MeetsEnds) {table : Table} :
    command.Takes tree path table ↔ tree.Holds path table.1 table.2 := by
  rw [← FileTree.opens_none_iff]
  constructor
  · rintro ⟨fault, hopens, hwhole⟩
    exact hwhole hmeets ▸ hopens
  · exact fun hopens => ⟨none, hopens, fun _ => rfl⟩

theorem takes_of_holds {table : Table} (hholds : tree.Holds path table.1 table.2) :
    command.Takes tree path table :=
  ⟨none, FileTree.opens_none_iff.mpr hholds, fun _ => rfl⟩

-- Some files up to the first one that cannot be taken in.
def TakesUpTo (command : ClusterCommand) (tree : FileTree) (paths : List String)
    (tables : List Table) (failure : Failure) : Prop :=
  ∃ earlier path later, paths = earlier ++ path :: later ∧
    List.Forall₂ (command.Takes tree) earlier tables ∧
      (Source.ofFile tree path).1 = .error failure

theorem TakesUpTo.isOfSource (hupTo : command.TakesUpTo tree paths tables failure) :
    failure.isOfSource = true := by
  obtain ⟨earlier, path, later, _, _, hsource⟩ := hupTo
  exact Source.isOfSource_of_ofFile hsource

-- Some files up to the first one that breaks off behind a part of its rows.
def TakesPart (command : ClusterCommand) (tree : FileTree) (paths : List String)
    (tables : List Table) (table : Table) (fault : FileFault) : Prop :=
  ∃ earlier path later, paths = earlier ++ path :: later ∧
    List.Forall₂ (command.Takes tree) earlier tables ∧ tree.Opens path table (some fault) ∧
      command.MeetsEnds

theorem takes_or_fails (command : ClusterCommand) (tree : FileTree) (paths : List String) :
    (∃ tables, List.Forall₂ (command.Takes tree) paths tables) ∨
      (∃ tables failure, command.TakesUpTo tree paths tables failure) ∨
        ∃ tables table fault, command.TakesPart tree paths tables table fault := by
  induction paths with
  | nil => exact .inl ⟨[], .nil⟩
  | cons path paths ih =>
      cases hsource : (Source.ofFile tree path).1 with
      | error failure =>
          exact .inr (.inl ⟨[], failure, [], path, paths, rfl, .nil, hsource⟩)
      | ok source =>
          let table : Table := (source.header, source.texts)
          have hopens : tree.Opens path table source.fault := ⟨source, hsource, rfl, rfl⟩
          by_cases hends : command.MeetsEnds → source.fault = none
          · have htakes : command.Takes tree path table := ⟨_, hopens, hends⟩
            rcases ih with ⟨tables, hall⟩ |
              ⟨tables, failure, earlier, other, later, rfl, hall, hother⟩ |
              ⟨tables, last, fault, earlier, other, later, rfl, hall, hother, hmeets⟩
            · exact .inl ⟨table :: tables, .cons htakes hall⟩
            · exact .inr (.inl ⟨table :: tables, failure, path :: earlier, other, later, rfl,
                .cons htakes hall, hother⟩)
            · exact .inr (.inr ⟨table :: tables, last, fault, path :: earlier, other, later, rfl,
                .cons htakes hall, hother, hmeets⟩)
          · obtain ⟨hmeets, hbroken⟩ := Classical.not_imp.mp hends
            obtain ⟨fault, hfault⟩ := Option.ne_none_iff_exists'.mp hbroken
            exact .inr (.inr
              ⟨[], table, fault, [], path, paths, rfl, .nil, hfault ▸ hopens, hmeets⟩)

-- What is made of a file that breaks off. Only whole chunks of it are uploaded.
def partWaves (command : ClusterCommand) (targets : Targets) (table : Table) :
    List (List Command) :=
  match command.kind with
  | .addDir =>
      let lines := command.settings.maxLinesPerChunk
      command.sourceWaves targets table.1 (table.2.take (table.2.length / lines * lines))
  | _ => command.deleteWaves targets table

theorem ends_deleteFile {source : Source} (hsource : (Source.ofFile tree path).1 = .ok source) :
    (command.deleteFile tree targets path).Ends
      (command.deleteWaves targets (source.header, source.texts)) (source.failureAt 1) := by
  have hends := Plan.ends_attempt hsource
    (@ends_deleteSource command targets path source)
  rwa [rowWaves, Source.idColumn_eq] at hends

theorem ends_addFile {source : Source} (hsource : (Source.ofFile tree path).1 = .ok source) :
    (command.addFile tree targets path).Ends
      (command.sourceWaves targets source.header
        (source.rowsInChunks command.settings.maxLinesPerChunk))
      (source.failureAt command.settings.maxLinesPerChunk) :=
  Plan.ends_attempt hsource (ends_addSource path source)

theorem makes_stage {source : Source} (hsource : (Source.ofFile tree path).1 = .ok source)
    (hwhole : source.fault = none) (stage : ClusterCommandKind) :
    (command.stagePlan tree targets path stage).Makes
      (command.stageWaves targets (source.header, source.texts) stage) := by
  cases stage with
  | uniform | updateDir => exact ⟨rfl, rfl⟩
  | addDir =>
      have hends := @ends_addFile command tree targets path source hsource
      rwa [Source.rowsInChunks_of_whole hwhole, Source.failureAt_of_whole hwhole] at hends
  | batchDelete =>
      have hends := @ends_deleteFile command tree targets path source hsource
      rwa [Source.failureAt_of_whole hwhole] at hends

theorem stops_stage {kind stage : ClusterCommandKind} (hstage : stage ∈ kind.stages)
    (hsource : (Source.ofFile tree path).1 = .error failure) :
    (command.stagePlan tree targets path stage).Stops [] failure := by
  rcases stages_of_mem hstage with rfl | rfl <;> exact Plan.stops_attempt hsource

theorem stops_takeIn (hbulk : command.IsBulk)
    (hsource : (Source.ofFile tree path).1 = .error failure) :
    (command.takeIn tree targets path).Stops [] failure := by
  obtain ⟨stage, stages, hstages⟩ := List.exists_cons_of_ne_nil hbulk.stages_ne_nil
  have hfirst : stage ∈ command.kind.stages := hstages ▸ List.mem_cons_self
  rw [takeIn, hstages, List.map_cons, Plan.sequence_cons]
  exact (stops_stage hfirst hsource).andThen _

theorem makes_takeIn {table : Table} (htakes : command.Takes tree path table) :
    (command.takeIn tree targets path).Makes (command.tableWaves targets table) := by
  obtain ⟨fault, ⟨source, hsource, rfl, hfault⟩, hends⟩ := htakes
  by_cases hmeets : command.MeetsEnds
  · have hwhole : source.fault = none := hfault.trans (hends hmeets)
    exact Plan.makes_sequence_map fun stage _ => makes_stage hsource hwhole stage
  · obtain ⟨hkind, hlines⟩ := Classical.not_imp.mp hmeets
    have hzero : command.settings.maxLinesPerChunk = 0 := Nat.eq_zero_of_not_pos hlines
    have hadd := @ends_addFile command tree targets path source hsource
    -- without rows in them there are no chunks
    have hsame : ∀ rows, command.sourceWaves targets source.header rows =
        command.sourceWaves targets source.header source.texts := fun rows => by
      rw [sourceWaves, sourceWaves, hzero, pieces_of_size_zero, pieces_of_size_zero]
    rw [hsame, hzero, Source.failureAt_zero] at hadd
    rw [takeIn, tableWaves, hkind]
    simp only [ClusterCommandKind.stages, List.map_cons, List.map_nil, Plan.sequence_cons,
      Plan.sequence_nil, Plan.andThen_done, List.flatMap_singleton]
    exact hadd

theorem stops_takePart (hbulk : command.IsBulk) (hmeets : command.MeetsEnds) {table : Table}
    {fault : FileFault} (hopens : tree.Opens path table (some fault)) :
    (command.takeIn tree targets path).Stops (command.partWaves targets table)
      (.io fault.message) := by
  obtain ⟨source, hsource, rfl, hfault⟩ := hopens
  have hdelete : (command.deleteFile tree targets path).Stops
      (command.deleteWaves targets (source.header, source.texts)) (.io fault.message) := by
    have hends := @ends_deleteFile command tree targets path source hsource
    rwa [Source.failureAt_of_broken hfault Nat.one_pos] at hends
  unfold takeIn partWaves
  rcases hbulk with hkind | hkind | hkind <;> rw [hkind]
  · have hends := @ends_addFile command tree targets path source hsource
    rw [Source.rowsInChunks_of_broken hfault,
      Source.failureAt_of_broken hfault (hmeets hkind)] at hends
    exact Plan.Stops.andThen hends _
  · exact hdelete.andThen _
  · exact hdelete.andThen _

theorem makes_takeInAll (hall : List.Forall₂ (command.Takes tree) paths tables) :
    (Plan.sequence (paths.map (command.takeIn tree targets))).Makes
      (tables.flatMap (command.tableWaves targets)) :=
  Plan.makes_sequence (List.forall₂_map_right_iff.mpr (hall.imp fun _ _ => makes_takeIn))

-- A file that cannot be taken in to its end ends the work on files after those before it.
theorem stops_takeInAll {earlier later : List String} {waves : List (List Command)}
    (hall : List.Forall₂ (command.Takes tree) earlier tables)
    (hhere : (command.takeIn tree targets path).Stops waves failure) :
    (Plan.sequence ((earlier ++ path :: later).map (command.takeIn tree targets))).Stops
      (tables.flatMap (command.tableWaves targets) ++ waves) failure := by
  rw [List.map_append, List.map_cons, Plan.sequence_append, Plan.sequence_cons]
  have hfirst : (Plan.sequence (earlier.map (command.takeIn tree targets))).Makes
      (tables.flatMap (command.tableWaves targets)) := makes_takeInAll hall
  exact hfirst.andThen_stops (hhere.andThen _)

theorem plan_of_fault {fault : TargetFault}
    (htargets : command.database.targets command.target = .error fault) :
    command.plan tree = .fail fault.failure := by
  simp only [plan, htargets]

section Uniform

variable {kind : CommandKind} (hkind : command.kind = .uniform kind)
  (htargets : command.database.targets command.target = .ok targets.nodes)
include hkind htargets

theorem makes_plan_of_uniform
    (hgiven : kind.needsArgument = true → (givenArgument command.argument).isSome = true) :
    (command.plan tree).Makes
      [command.forEach targets kind (givenArgument command.argument)] := by
  rw [command.plan_of_targets tree targets htargets, planFor, hkind]
  exact (Plan.makes_notes _).andThen (everywhere_of_given [] hgiven)

theorem stops_plan_of_uniform (hneeds : kind.needsArgument = true)
    (hmissing : givenArgument command.argument = none) :
    (command.plan tree).Stops [] (Command.missingArgument kind) := by
  rw [command.plan_of_targets tree targets htargets, planFor, hkind]
  exact (Plan.makes_notes _).andThen_stops (everywhere_of_missing [] hneeds hmissing)

end Uniform

section Bulk

variable (hbulk : command.IsBulk)
  (htargets : command.database.targets command.target = .ok targets.nodes)
include hbulk htargets

theorem makes_plan_of_bulk (hpaths : (tree.inputFiles (command.argument.getD "")).1 = .ok paths)
    (hall : List.Forall₂ (command.Takes tree) paths tables) :
    (command.plan tree).Makes (tables.flatMap (command.tableWaves targets)) := by
  rw [command.plan_of_targets tree targets htargets, hbulk.planFor_eq]
  exact (Plan.makes_notes _).andThen (Plan.makes_attempt hpaths (makes_takeInAll hall))

theorem stops_plan_of_bulk {waves : List (List Command)}
    (hpaths : (tree.inputFiles (command.argument.getD "")).1 = .ok paths)
    (hstops : (Plan.sequence (paths.map (command.takeIn tree targets))).Stops waves failure) :
    (command.plan tree).Stops waves failure := by
  rw [command.plan_of_targets tree targets htargets, hbulk.planFor_eq, forSources,
    Plan.attempt_of_ok hpaths]
  exact (Plan.makes_notes _).andThen_stops ((Plan.makes_notes _).andThen_stops hstops)

theorem stops_plan_of_upTo (hpaths : (tree.inputFiles (command.argument.getD "")).1 = .ok paths)
    (hupTo : command.TakesUpTo tree paths tables failure) :
    (command.plan tree).Stops (tables.flatMap (command.tableWaves targets)) failure := by
  obtain ⟨earlier, path, later, rfl, hall, hsource⟩ := hupTo
  have hhere : (command.takeIn tree targets path).Stops [] failure := stops_takeIn hbulk hsource
  refine stops_plan_of_bulk hbulk htargets hpaths ?_
  exact List.append_nil (tables.flatMap _) ▸ stops_takeInAll hall hhere

theorem stops_plan_of_part {table : Table} {fault : FileFault}
    (hpaths : (tree.inputFiles (command.argument.getD "")).1 = .ok paths)
    (hpart : command.TakesPart tree paths tables table fault) :
    (command.plan tree).Stops (tables.flatMap (command.tableWaves targets) ++
      command.partWaves targets table) (.io fault.message) := by
  obtain ⟨earlier, path, later, rfl, hall, hopens, hmeets⟩ := hpart
  exact stops_plan_of_bulk hbulk htargets hpaths
    (stops_takeInAll hall (stops_takePart hbulk hmeets hopens))

theorem stops_plan_of_inputFiles
    (hpaths : (tree.inputFiles (command.argument.getD "")).1 = .error failure) :
    (command.plan tree).Stops [] failure := by
  rw [command.plan_of_targets tree targets htargets, hbulk.planFor_eq]
  exact (Plan.makes_notes _).andThen_stops (Plan.stops_attempt hpaths)

end Bulk

-- What the plan of a command comes to: its waves, and how it ends if no task fails.
inductive ComesTo (command : ClusterCommand) (tree : FileTree) :
    List (List Command) → Except Failure Unit → Prop
  | unresolved {fault : TargetFault}
      (htargets : command.database.targets command.target = .error fault) :
      ComesTo command tree [] (.error fault.failure)
  | unmade {kind : CommandKind} (hkind : command.kind = .uniform kind)
      (hneeds : kind.needsArgument = true) (hmissing : givenArgument command.argument = none) :
      ComesTo command tree [] (.error (Command.missingArgument kind))
  | everywhere {kind : CommandKind} {targets : Targets} (hkind : command.kind = .uniform kind)
      (htargets : command.database.targets command.target = .ok targets.nodes)
      (hgiven : kind.needsArgument = true → (givenArgument command.argument).isSome = true) :
      ComesTo command tree [command.forEach targets kind (givenArgument command.argument)]
        (.ok ())
  | unlisted {failure : Failure} (hbulk : command.IsBulk)
      (hpaths : (tree.inputFiles (command.argument.getD "")).1 = .error failure) :
      ComesTo command tree [] (.error failure)
  | upTo {targets : Targets} {paths : List String} {tables : List Table} {failure : Failure}
      (hbulk : command.IsBulk)
      (htargets : command.database.targets command.target = .ok targets.nodes)
      (hpaths : (tree.inputFiles (command.argument.getD "")).1 = .ok paths)
      (hupTo : command.TakesUpTo tree paths tables failure) :
      ComesTo command tree (tables.flatMap (command.tableWaves targets)) (.error failure)
  | part {targets : Targets} {paths : List String} {tables : List Table} {table : Table}
      {fault : FileFault} (hbulk : command.IsBulk)
      (htargets : command.database.targets command.target = .ok targets.nodes)
      (hpaths : (tree.inputFiles (command.argument.getD "")).1 = .ok paths)
      (hpart : command.TakesPart tree paths tables table fault) :
      ComesTo command tree
        (tables.flatMap (command.tableWaves targets) ++ command.partWaves targets table)
        (.error (.io fault.message))
  | all {targets : Targets} {paths : List String} {tables : List Table} (hbulk : command.IsBulk)
      (htargets : command.database.targets command.target = .ok targets.nodes)
      (hpaths : (tree.inputFiles (command.argument.getD "")).1 = .ok paths)
      (hall : List.Forall₂ (command.Takes tree) paths tables) :
      ComesTo command tree (tables.flatMap (command.tableWaves targets)) (.ok ())

theorem comesTo_plan (command : ClusterCommand) (tree : FileTree) :
    command.ComesTo tree (command.plan tree).waves (command.plan tree).outcome := by
  have hmade : ∀ {waves : List (List Command)}, (command.plan tree).Makes waves →
      command.ComesTo tree waves (.ok ()) →
      command.ComesTo tree (command.plan tree).waves (command.plan tree).outcome := by
    intro waves hmakes hcomes
    rwa [hmakes.waves, hmakes.outcome]
  have hstopped : ∀ {waves : List (List Command)} {failure : Failure},
      (command.plan tree).Stops waves failure → command.ComesTo tree waves (.error failure) →
      command.ComesTo tree (command.plan tree).waves (command.plan tree).outcome := by
    intro waves failure hstops hcomes
    rwa [hstops.waves, hstops.outcome]
  cases htargets : command.database.targets command.target with
  | error fault =>
      rw [plan_of_fault htargets]
      exact .unresolved htargets
  | ok nodes =>
      let targets : Targets := ⟨nodes, Database.nonempty_of_targets htargets⟩
      have htargets : command.database.targets command.target = .ok targets.nodes := htargets
      rcases command.isBulk_or_uniform with hbulk | ⟨kind, hkind⟩
      · cases hpaths : (tree.inputFiles (command.argument.getD "")).1 with
        | error failure =>
            exact hstopped (stops_plan_of_inputFiles hbulk htargets hpaths)
              (.unlisted hbulk hpaths)
        | ok paths =>
            rcases command.takes_or_fails tree paths with ⟨tables, hall⟩ |
              ⟨tables, failure, hupTo⟩ | ⟨tables, table, fault, hpart⟩
            · exact hmade (makes_plan_of_bulk hbulk htargets hpaths hall)
                (.all hbulk htargets hpaths hall)
            · exact hstopped (stops_plan_of_upTo hbulk htargets hpaths hupTo)
                (.upTo hbulk htargets hpaths hupTo)
            · exact hstopped (stops_plan_of_part hbulk htargets hpaths hpart)
                (.part hbulk htargets hpaths hpart)
      · by_cases hgiven : kind.needsArgument = true → (givenArgument command.argument).isSome = true
        · exact hmade (makes_plan_of_uniform hkind htargets hgiven)
            (.everywhere hkind htargets hgiven)
        · obtain ⟨hneeds, hnone⟩ := Classical.not_imp.mp hgiven
          have hmissing := Option.not_isSome_iff_eq_none.mp hnone
          exact hstopped (stops_plan_of_uniform hkind htargets hneeds hmissing)
            (.unmade hkind hneeds hmissing)

-- A run ends as its plan comes to, or with a failure of one of its tasks.
theorem MayLeave.comesTo_or_fails {run : Run} (hrun : command.MayLeave tree world run) :
    (command.ComesTo tree run.commands run.result ∧ ∀ wave ∈ run.waves, wave.failures = []) ∨
      ∃ failure, run.result = .error failure ∧
        ∃ wave ∈ run.waves, ∃ one ∈ wave, one.transcript.result = .error failure := by
  cases hrun.follows with
  | whole hcommands hclean hresult =>
      refine .inl ⟨?_, hclean⟩
      rw [hcommands, hresult]
      exact command.comesTo_plan tree
  | @cut earlier last failure _ hwaves _ hfailure hresult =>
      have hlast : last ∈ run.waves := hwaves ▸ List.mem_append_right _ List.mem_cons_self
      exact .inr ⟨failure, hresult, last, hlast, WaveRun.mem_failures.mp hfailure⟩

theorem IsReady.makes_plan (hready : command.IsReady tree targets tables) :
    (command.plan tree).Makes
      (tables.flatMap fun table => command.sourceWaves targets table.1 table.2) := by
  obtain ⟨hkind, htargets, _, paths, hpaths, hall⟩ := hready
  have htakes : List.Forall₂ (command.Takes tree) paths tables :=
    hall.imp fun _ _ => takes_of_holds
  have hmakes := makes_plan_of_bulk (.inl hkind) htargets hpaths htakes
  have hwaves : command.tableWaves targets =
      fun table => command.sourceWaves targets table.1 table.2 :=
    funext fun table => by
      simp only [tableWaves, hkind, ClusterCommandKind.stages, stageWaves, List.flatMap_singleton]
  rwa [hwaves] at hmakes

end ClusterCommand

end IndexFleet
