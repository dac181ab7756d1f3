import IndexFleet.Proofs.Bulk.Reading
import IndexFleet.Proofs.Execution.Effect
import IndexFleet.Proofs.FileTree

namespace IndexFleet

namespace ClusterCommand

def onFile (command : ClusterCommand) (path : String) (kind : ClusterCommandKind) :
    ClusterCommand :=
  { command with kind, argument := some path }

-- The commands for single files that a command for a directory with such files stands for.
def parts (command : ClusterCommand) (paths : List String) : List ClusterCommand :=
  paths.flatMap fun path => command.kind.stages.map (command.onFile path)

-- The only failures of a directory that its files do not have by themselves: a path may be too long
-- for a file, and then no source is found there.
def Lost (paths : List String) (failure other : Failure) : Prop :=
  ∃ path ∈ paths, FileTree.maxPath ≤ path.utf8ByteSize ∧
    failure = .io FileFault.nameTooLong.message ∧ other = .noInputFiles path

variable {command : ClusterCommand} {tree : FileTree} {targets : Targets} {paths : List String}
  {path : String} {shows : Plan → Effect → Prop}

theorem IsBulk.shows_iff (hbulk : command.IsBulk) (hshows : Plan.Composes shows)
    (htargets : command.database.targets command.target = .ok targets.nodes)
    (hpaths : (tree.inputFiles (command.argument.getD "")).1 = .ok paths) (effect : Effect) :
    shows (command.plan tree) effect ↔
      Effect.InTurn ((paths.flatMap fun path =>
        command.kind.stages.map (command.stagePlan tree targets path)).map shows) effect := by
  rw [plan_of_targets command tree targets htargets, hshows.notes_andThen, hbulk.planFor_eq,
    forSources, Plan.attempt_of_ok hpaths, hshows.notes_andThen, Plan.sequence_flatMap,
    hshows.sequence]

variable {stage : ClusterCommandKind}

theorem isBulk_onFile (path : String) (hstage : stage ∈ command.kind.stages) :
    (command.onFile path stage).IsBulk ∧ stage.stages = [stage] := by
  rcases stages_of_mem hstage with rfl | rfl
  · exact ⟨.inl rfl, rfl⟩
  · exact ⟨.inr (.inr rfl), rfl⟩

theorem stagePlan_onFile (path : String) (stage : ClusterCommandKind) :
    (command.onFile path stage).stagePlan tree targets path stage =
      command.stagePlan tree targets path stage := by
  have hsettings : (command.onFile path stage).settings = command.settings := rfl
  cases stage with
  | uniform | updateDir => rfl
  | addDir =>
      exact congrArg (Plan.attempt _) (funext fun source => addSource_congr path source hsettings)
  | batchDelete =>
      exact congrArg (Plan.attempt _)
        (funext fun source => deleteSource_congr path source hsettings)

theorem shows_onFile_of_found (hshows : Plan.Composes shows) (hstage : stage ∈ command.kind.stages)
    (htargets : command.database.targets command.target = .ok targets.nodes)
    (hpath : (tree.inputFiles path).1 = .ok [path]) (effect : Effect) :
    shows ((command.onFile path stage).plan tree) effect ↔
      shows (command.stagePlan tree targets path stage) effect := by
  obtain ⟨hbulk, hstages⟩ := isBulk_onFile path hstage
  rw [hbulk.shows_iff hshows htargets hpath]
  have hkind : (command.onFile path stage).kind = stage := rfl
  rw [hkind, hstages, ← stagePlan_onFile]
  exact Effect.inTurn_singleton

theorem shows_onFile_of_error (hshows : Plan.Composes shows) (hstage : stage ∈ command.kind.stages)
    (htargets : command.database.targets command.target = .ok targets.nodes) {failure : Failure}
    (hpath : (tree.inputFiles path).1 = .error failure) (effect : Effect) :
    shows ((command.onFile path stage).plan tree) effect ↔ effect = ⟨[], .error failure⟩ := by
  obtain ⟨hbulk, _⟩ := isBulk_onFile path hstage
  have hargument : (command.onFile path stage).argument.getD "" = path := rfl
  rw [plan_of_targets (command.onFile path stage) tree targets htargets, hshows.notes_andThen,
    hbulk.planFor_eq, forSources, hargument, Plan.attempt_of_error hpath, hshows.notes_andThen,
    hshows.fail]

theorem shows_stage_of_error (hshows : Plan.Composes shows) (hstage : stage ∈ command.kind.stages)
    {failure : Failure} (hsource : (Source.ofFile tree path).1 = .error failure)
    (effect : Effect) :
    shows (command.stagePlan tree targets path stage) effect ↔ effect = ⟨[], .error failure⟩ := by
  rcases stages_of_mem hstage with rfl | rfl
  · rw [stagePlan, addFile, Plan.attempt_of_error hsource, hshows.notes_andThen, hshows.fail]
  · rw [stagePlan, deleteFile, Plan.attempt_of_error hsource, hshows.notes_andThen, hshows.fail]

-- A stage on a file of a directory is the command for that file.
theorem alike_stage (hshows : Plan.Composes shows) (hstage : stage ∈ command.kind.stages)
    (htargets : command.database.targets command.target = .ok targets.nodes)
    (hpath : path ∈ paths) (hfares : tree.Fares path) :
    Effect.Alike (Lost paths) (shows (command.stagePlan tree targets path stage))
      (shows ((command.onFile path stage).plan tree)) := by
  cases hfares with
  | found hfound =>
      refine Effect.alike_of_iff fun effect => ?_
      exact (shows_onFile_of_found hshows hstage htargets hfound effect).symm
  | long hlong hmissing hsource =>
      have hlost : Effect.AgreesUpTo (Lost paths) ⟨[], .error (.io FileFault.nameTooLong.message)⟩
          ⟨[], .error (.noInputFiles path)⟩ :=
        ⟨rfl, .inr ⟨_, _, ⟨path, hpath, hlong, rfl, rfl⟩, rfl, rfl⟩⟩
      constructor
      · intro effect heffect
        rw [(shows_stage_of_error hshows hstage hsource effect).mp heffect]
        exact ⟨_, (shows_onFile_of_error hshows hstage htargets hmissing _).mpr rfl, hlost⟩
      · intro same hsame
        rw [(shows_onFile_of_error hshows hstage htargets hmissing same).mp hsame]
        exact ⟨_, (shows_stage_of_error hshows hstage hsource _).mpr rfl, hlost⟩

theorem IsBulk.parts_ne_nil (hbulk : command.IsBulk) (hsome : paths ≠ []) :
    command.parts paths ≠ [] := by
  obtain ⟨path, rest, rfl⟩ := List.exists_cons_of_ne_nil hsome
  obtain ⟨stage, stages, hstages⟩ := List.exists_cons_of_ne_nil hbulk.stages_ne_nil
  simp [parts, hstages]

theorem forall₂_stages (paths : List String) {chosen : List String} (hshows : Plan.Composes shows)
    (htargets : command.database.targets command.target = .ok targets.nodes)
    (hchosen : ∀ path ∈ chosen, path ∈ paths ∧ tree.Fares path) :
    List.Forall₂ (Effect.Alike (Lost paths))
      ((chosen.flatMap fun path =>
        command.kind.stages.map (command.stagePlan tree targets path)).map shows)
      ((command.parts chosen).map fun part => shows (part.plan tree)) := by
  induction chosen with
  | nil => exact .nil
  | cons path chosen ih =>
      obtain ⟨⟨hpath, hfares⟩, hrest⟩ := List.forall_mem_cons.mp hchosen
      have hone : List.Forall₂ (Effect.Alike (Lost paths))
          ((command.kind.stages.map (command.stagePlan tree targets path)).map shows)
          ((command.kind.stages.map (command.onFile path)).map fun part =>
            shows (part.plan tree)) := by
        rw [List.map_map, List.map_map, List.forall₂_map_left_iff, List.forall₂_map_right_iff,
          List.forall₂_same]
        exact fun stage hstage => alike_stage hshows hstage htargets hpath hfares
      rw [parts, List.flatMap_cons, List.flatMap_cons, List.map_append, List.map_append]
      exact List.rel_append hone (ih hrest)

theorem IsBulk.alike_parts (hbulk : command.IsBulk) (hshows : Plan.Composes shows)
    (hpaths : (tree.inputFiles (command.argument.getD "")).1 = .ok paths) (hsome : paths ≠ [])
    (hfares : ∀ path ∈ paths, tree.Fares path) :
    Effect.Alike (Lost paths) (shows (command.plan tree))
      (Effect.InTurn ((command.parts paths).map fun part => shows (part.plan tree))) := by
  rcases command.exists_targets with ⟨failure, hfails⟩ | ⟨targets, htargets⟩
  · have hwhole : command.plan tree = .fail failure := hfails command.kind command.argument tree
    obtain ⟨first, rest, hparts⟩ := List.exists_cons_of_ne_nil (hbulk.parts_ne_nil hsome)
    have hfirst : first.plan tree = .fail failure := by
      have hmem : first ∈ command.parts paths := hparts ▸ List.mem_cons_self
      obtain ⟨path, _, hstage⟩ := List.mem_flatMap.mp hmem
      obtain ⟨stage, _, rfl⟩ := List.mem_map.mp hstage
      exact hfails stage (some path) tree
    -- the first part fails as the whole does, and the others are not reached
    rw [hparts, List.map_cons, hfirst, hwhole]
    constructor
    · intro effect heffect
      obtain rfl := (hshows.fail failure effect).mp heffect
      exact ⟨_, .stop heffect rfl, Effect.agreesUpTo_refl _⟩
    · intro same hturn
      cases hturn with
      | stop hsame _ => exact ⟨same, hsame, Effect.agreesUpTo_refl same⟩
      | goOn hsame hok _ =>
          rw [(hshows.fail failure _).mp hsame] at hok
          exact nomatch hok
  · have hturn := hbulk.shows_iff hshows htargets hpaths
    have hall := Effect.alike_inTurn (forall₂_stages paths hshows htargets
      fun path hpath => ⟨hpath, hfares path hpath⟩)
    constructor
    · exact fun effect heffect => hall.forth effect ((hturn effect).mp heffect)
    · intro same hsame
      obtain ⟨effect, heffect, hagrees⟩ := hall.back same hsame
      exact ⟨effect, (hturn effect).mpr heffect, hagrees⟩

theorem kind_of_mayShow {kind : CommandKind} {limit : Nat} {plan : Plan} {world : World}
    {effect : Effect} (hplan : plan.Every (IsWaveOf kind limit))
    (heffect : plan.MayShow tree world effect) :
    ∀ wave ∈ effect.waves, ∀ one ∈ wave, one.command.kind = kind := by
  obtain ⟨course, hcourse, rfl⟩ := heffect
  intro wave hwave one hone
  have hmade : one.command ∈ WaveRun.commands wave := List.mem_map_of_mem hone
  exact (hplan _ (hcourse.planned wave hwave).1).kind_eq one.command hmade

end ClusterCommand

-- The waves of an update that belong to one of its files: some that delete, then some that upload.
structure FileWaves where
  path : String
  deletes : List WaveRun
  uploads : List WaveRun

namespace FileWaves

def waves (touched : FileWaves) : List WaveRun := touched.deletes ++ touched.uploads

-- What is sent for a file. Nothing is uploaded unless all its rows are deleted, and everywhere.
structure IsOrdered (touched : FileWaves) (command : ClusterCommand) (tree : FileTree)
    (world : World) : Prop where
  deletes : ∀ wave ∈ touched.deletes, ∀ one ∈ wave, one.command.kind = .delete
  uploads : ∀ wave ∈ touched.uploads, ∀ one ∈ wave, one.command.kind = .addData
  deleted : touched.uploads ≠ [] →
    (command.onFile touched.path .batchDelete).MayShow tree world ⟨touched.deletes, .ok ()⟩ ∧
      ∀ wave ∈ touched.deletes, ∀ one ∈ wave, ∀ call ∈ one.transcript.calls,
        call.2.isAccepting = true

end FileWaves

namespace ClusterCommand

variable {command : ClusterCommand} {tree : FileTree} {targets : Targets} {paths : List String}
  {world : World} {effect : Effect}

-- The waves of a file fit to what an update does with it.
structure IsUpdate (command : ClusterCommand) (tree : FileTree) (targets : Targets) (world : World)
    (touched : FileWaves) : Prop where
  deletes : ∃ result, (command.deleteFile tree targets touched.path).MayShow tree world
    ⟨touched.deletes, result⟩
  uploads : touched.uploads = [] ∨
    ((command.deleteFile tree targets touched.path).MayShow tree world ⟨touched.deletes, .ok ()⟩ ∧
      ∃ result, (command.addFile tree targets touched.path).MayShow tree world
        ⟨touched.uploads, result⟩)

theorem exists_fileWaves
    (hturn : Effect.InTurn ((paths.flatMap fun path =>
      [command.deleteFile tree targets path, command.addFile tree targets path]).map
        fun plan => plan.MayShow tree world) effect) :
    ∃ groups : List FileWaves, groups.map (·.path) <+: paths ∧
      effect.waves = groups.flatMap (·.waves) ∧
      ∀ touched ∈ groups, command.IsUpdate tree targets world touched := by
  induction paths generalizing effect with
  | nil =>
      cases hturn
      exact ⟨[], List.prefix_rfl, rfl, fun _ htouched => nomatch htouched⟩
  | cons path paths ih =>
      have hbegins : [path] <+: path :: paths := List.cons_prefix_cons.mpr ⟨rfl, List.nil_prefix⟩
      cases hturn with
      | stop hdelete hfailure =>
          refine ⟨[⟨path, effect.waves, []⟩], hbegins, ?_, ?_⟩
          · simp [FileWaves.waves]
          · exact List.forall_mem_singleton.mpr ⟨⟨_, hdelete⟩, .inl rfl⟩
      | @goOn _ _ first next hdelete hok hnext =>
          have hdeleted : (command.deleteFile tree targets path).MayShow tree world
              ⟨first.waves, .ok ()⟩ := hok ▸ hdelete
          cases hnext with
          | stop hadd hfailure =>
              refine ⟨[⟨path, first.waves, next.waves⟩], hbegins, ?_, ?_⟩
              · simp [FileWaves.waves, Effect.andThen_of_ok hok]
              · exact List.forall_mem_singleton.mpr
                  ⟨⟨_, hdeleted⟩, .inr ⟨hdeleted, _, hadd⟩⟩
          | @goOn _ _ second last hadd hokay hrest =>
              obtain ⟨groups, hpaths, hwaves, hgroups⟩ := ih hrest
              refine ⟨⟨path, first.waves, second.waves⟩ :: groups, ?_, ?_, ?_⟩
              · exact List.cons_prefix_cons.mpr ⟨rfl, hpaths⟩
              · simp [FileWaves.waves, Effect.andThen_of_ok hok, Effect.andThen_of_ok hokay, hwaves]
              · exact List.forall_mem_cons.mpr
                  ⟨⟨⟨_, hdeleted⟩, .inr ⟨hdeleted, _, hadd⟩⟩, hgroups⟩

theorem every_deleteFile (path : String) :
    (command.deleteFile tree targets path).Every (IsWaveOf .delete targets.count) :=
  Plan.every_attempt fun source _ => every_deleteSource path source

theorem every_addFile (path : String) : (command.addFile tree targets path).Every
    (IsWaveOf .addData (command.settings.uploadsPerWave targets.count)) :=
  Plan.every_attempt fun source _ => every_addSource path source

-- A deletion that succeeds has been accepted wherever it was sent.
theorem accepted_of_deleteFile {waves : List WaveRun} {path : String}
    (hdeleted : (command.deleteFile tree targets path).MayShow tree world ⟨waves, .ok ()⟩) :
    ∀ wave ∈ waves, ∀ one ∈ wave, ∀ call ∈ one.transcript.calls,
      call.2.isAccepting = true := by
  obtain ⟨course, hcourse, hsame⟩ := hdeleted
  obtain ⟨rfl, hok⟩ := Effect.mk.inj hsame
  intro wave hwave one hone call hcall
  obtain ⟨hcommands, hcomplete⟩ := hcourse.planned wave hwave
  have hmade : one.command ∈ WaveRun.commands wave := List.mem_map_of_mem hone
  have hdeletes := every_deleteFile path _ hcommands
  obtain ⟨argument, hargument⟩ := Option.isSome_iff_exists.mp (hdeletes.given _ hmade rfl)
  have hleave := hcomplete one hone
  rw [Command.dialogue_delete (hdeletes.kind_eq _ hmade) hargument] at hleave
  obtain ⟨reply, _, htranscript⟩ := Client.mayLeave_send hleave
  have hclean := WaveRun.failures_eq_nil_iff.mp (hcourse.clean_of_ok hok wave hwave) one hone
  rw [htranscript] at hcall hclean
  rw [List.mem_singleton.mp hcall]
  exact Client.outcome_eq_ok_iff.mp hclean

theorem IsUpdate.isOrdered {touched : FileWaves} (hkind : command.kind = .updateDir)
    (htargets : command.database.targets command.target = .ok targets.nodes)
    (hcalm : ¬world.mayPanic) (hfares : tree.Fares touched.path)
    (h : command.IsUpdate tree targets world touched) : touched.IsOrdered command tree world := by
  obtain ⟨⟨result, hdeletes⟩, huploads⟩ := h
  have hstage : .batchDelete ∈ command.kind.stages := by
    rw [hkind]
    exact List.mem_cons_self
  have hshows := Plan.composes_mayShow tree world
  refine ⟨kind_of_mayShow (every_deleteFile _) hdeletes, ?_, fun hsome => ?_⟩
  · rcases huploads with hnone | ⟨_, last, hadd⟩
    · exact fun wave hwave => nomatch hnone ▸ hwave
    · exact kind_of_mayShow (every_addFile _) hadd
  · rcases huploads with hnone | ⟨hdeleted, _⟩
    · exact absurd hnone hsome
    · refine ⟨(mayShow_iff hcalm).mpr ?_, accepted_of_deleteFile hdeleted⟩
      cases hfares with
      | found hfound => exact (shows_onFile_of_found hshows hstage htargets hfound _).mpr hdeleted
      | long _ _ hsource =>
          have hlost := (shows_stage_of_error hshows hstage hsource _).mp hdeleted
          exact nomatch (Effect.mk.inj hlost).2

-- What is true of every bulk command on a directory with so many files: it does what its parts on
-- the single files do in turn, up to the first failure.
structure IsComposed (command : ClusterCommand) (tree : FileTree) (paths : List String) : Prop where
  runs : ∀ network, (command.run tree network).effect.AgreesUpTo (Lost paths)
    (Effect.inTurn ((command.parts paths).map fun part => (part.run tree network).effect))
  executions : ∀ world : World, ¬world.mayPanic →
    Effect.Alike (Lost paths) (command.MayShow tree world)
      (Effect.InTurn ((command.parts paths).map fun part => part.MayShow tree world))
  updates : command.kind = .updateDir → ∀ world run, ¬world.mayPanic →
    command.MayLeave tree world run → ∃ groups : List FileWaves,
      groups.map (·.path) <+: paths ∧ run.waves = groups.flatMap (·.waves) ∧
        ∀ touched ∈ groups, touched.IsOrdered command tree world

theorem isComposed_of_directory {location : Location} (hbulk : command.IsBulk)
    (hsound : tree.IsSound)
    (hfind : tree.find (command.argument.getD "") = .ok (location, .directory))
    (hpaths : (tree.inputFiles (command.argument.getD "")).1 = .ok paths) :
    command.IsComposed tree paths := by
  obtain ⟨_, hsome⟩ := FileTree.paths_of_directory hfind hpaths
  have hfares := hsound.fares hfind hpaths
  constructor
  · intro network
    have hshows := Plan.composes_run tree network
    obtain ⟨same, hturn, hagrees⟩ :=
      (hbulk.alike_parts hshows hpaths hsome hfares).forth _ rfl
    rw [hturn.eq_inTurn, ← effect_run] at hagrees
    simpa only [effect_run] using hagrees
  · intro world hcalm
    have hsame : ∀ any : ClusterCommand,
        any.MayShow tree world = (any.plan tree).MayShow tree world :=
      fun any => funext fun effect => propext (mayShow_iff hcalm)
    simp only [hsame]
    exact hbulk.alike_parts (Plan.composes_mayShow tree world) hpaths hsome hfares
  · intro hkind world run hcalm hrun
    have hshows := Plan.composes_mayShow tree world
    have hrun' : (command.plan tree).MayShow tree world run.effect :=
      (mayShow_iff hcalm).mp ⟨run, hrun, rfl⟩
    rcases command.exists_targets with ⟨failure, hfails⟩ | ⟨targets, htargets⟩
    · have hwhole : command.plan tree = .fail failure := hfails command.kind command.argument tree
      rw [hwhole, hshows.fail] at hrun'
      have hwaves : run.waves = [] := congrArg Effect.waves hrun'
      exact ⟨[], List.nil_prefix, hwaves, fun _ htouched => nomatch htouched⟩
    · have hturn := (hbulk.shows_iff hshows htargets hpaths run.effect).mp hrun'
      rw [hkind] at hturn
      obtain ⟨groups, hbegins, hwaves, hgroups⟩ := exists_fileWaves hturn
      refine ⟨groups, hbegins, hwaves, fun touched htouched => ?_⟩
      have hpath : touched.path ∈ paths := hbegins.subset (List.mem_map_of_mem htouched)
      exact (hgroups touched htouched).isOrdered hkind htargets hcalm (hfares _ hpath)

theorem isComposed_twoFiles :
    (forPair .updateDir (some (FileTree.slashed 0))).IsComposed .twoFiles (FileTree.filePaths 0) :=
  isComposed_of_directory (.inr (.inl rfl)) FileTree.isSound_twoFiles
    (FileTree.find_slashed (by decide)) (FileTree.inputFiles_slashed (by decide))

-- Where the first file has too long a path, all fails at once, but not in the same way.
theorem IsBulk.effects_of_long (hbulk : command.IsBulk) (network : Network)
    (htargets : command.database.targets command.target = .ok targets.nodes)
    (hpaths : (tree.inputFiles (command.argument.getD "")).1 = .ok (path :: paths))
    (hproper : '\x00' ∉ path.toList) (hgiven : path ≠ "")
    (hlong : FileTree.maxPath ≤ path.utf8ByteSize) :
    (command.run tree network).effect = ⟨[], .error (.io FileFault.nameTooLong.message)⟩ ∧
      Effect.inTurn ((command.parts (path :: paths)).map fun part =>
        (part.run tree network).effect) = ⟨[], .error (.noInputFiles path)⟩ := by
  have hshows := Plan.composes_run tree network
  have hmissing : (tree.inputFiles path).1 = .error (.noInputFiles path) :=
    FileTree.inputFiles_of_long hproper hgiven hlong
  obtain ⟨stage, stages, hstages⟩ := List.exists_cons_of_ne_nil hbulk.stages_ne_nil
  have hstage : stage ∈ command.kind.stages := hstages ▸ List.mem_cons_self
  constructor
  · have hsource : (Source.ofFile tree path).1 = .error (.io FileFault.nameTooLong.message) :=
      FileTree.ofFile_of_long hproper hgiven hlong
    rw [effect_run, hbulk.shows_iff hshows htargets hpaths, List.flatMap_cons, hstages]
    exact .stop ((shows_stage_of_error hshows hstage hsource _).mpr rfl) rfl
  · have hfirst := (shows_onFile_of_error hshows hstage htargets hmissing _).mpr rfl
    simp only [parts, List.flatMap_cons, hstages, List.map_cons, List.cons_append, effect_run,
      hfirst]
    rfl

theorem effect_ne_inTurn_longPaths :
    FileTree.twoFiles.find (FileTree.slashed 4092) = .ok (["d"], .directory) ∧
      (FileTree.twoFiles.inputFiles (FileTree.slashed 4092)).1 = .ok (FileTree.filePaths 4092) ∧
      ((forPair .addDir (some (FileTree.slashed 4092))).run .twoFiles
          fun _ => .answered 200 []).effect ≠
        Effect.inTurn (((forPair .addDir (some (FileTree.slashed 4092))).parts
          (FileTree.filePaths 4092)).map
            fun part => (part.run .twoFiles fun _ => .answered 200 []).effect) := by
  let command := forPair .addDir (some (FileTree.slashed 4092))
  have hshort : 4092 + 1 < FileTree.maxPath := by decide
  have hpaths : (FileTree.twoFiles.inputFiles (command.argument.getD "")).1 =
      .ok (FileTree.filePaths 4092) := FileTree.inputFiles_slashed hshort
  have htargets : command.database.targets command.target = .ok Targets.pair.nodes :=
    targets_forPair _ _
  have hproper : '\x00' ∉ (FileTree.join (FileTree.slashed 4092) "first").toList :=
    FileTree.proper_join (FileTree.proper_slashed 4092) (by decide)
  have hmany : 4090 < 4092 := by decide
  have hlong := FileTree.isLong_of_slashed hmany _ List.mem_cons_self
  obtain ⟨hwhole, hparts⟩ := IsBulk.effects_of_long (.inl rfl) (fun _ => .answered 200 []) htargets
    hpaths hproper (FileTree.join_ne_empty (by decide)) hlong
  refine ⟨FileTree.find_slashed hshort, hpaths, fun hsame => ?_⟩
  exact nomatch (Effect.mk.inj (hwhole.symm.trans (hsame.trans hparts))).2

end ClusterCommand

end IndexFleet
