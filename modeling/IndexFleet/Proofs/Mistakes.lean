import IndexFleet.CommandLine.Run
import IndexFleet.Proofs.Bulk.Reading
import IndexFleet.Proofs.FileTree
import IndexFleet.Proofs.Uniform

namespace IndexFleet

namespace Failure

-- What is wrong with the words of a command or with the settings and the topology.
def isMisuse : Failure → Bool
  | unknownCommand _ | argument _ | config _ => true
  | _ => false

-- What operators do wrong before any server comes in.
def isMistake : Failure → Bool
  | targetNotFound _ | noInputFiles _ => true
  | failure => failure.isMisuse

def isOfServer (failure : Failure) : Bool := failure.isTransport || failure.isRejection

variable {failure : Failure}

theorem isMisuse_of_isMistake (hfine : failure.isMistake = false) : failure.isMisuse = false := by
  cases failure <;> first | rfl | cases hfine

theorem isMistake_of_isOfServer (hserver : failure.isOfServer = true) :
    failure.isMistake = false := by
  cases failure <;> first | rfl | cases hserver

theorem isMistake_of_isOfSource (hsource : failure.isOfSource = true) :
    failure.isMistake = false := by
  cases failure <;> first | rfl | cases hsource

theorem isOfSource_of_isOfServer (hserver : failure.isOfServer = true) :
    failure.isOfSource = false := by
  cases failure <;> first | rfl | cases hserver

end Failure

variable {world : World} {tree : FileTree}

theorem Client.isOfServer_of_send {client : Client} {request : Request} {failure : Failure}
    {transcript : Dialogue.Transcript (Except Failure String)}
    (h : Dialogue.MayLeave world (client.send request) transcript)
    (hfailure : transcript.result = .error failure) : failure.isOfServer = true := by
  obtain ⟨reply, _, rfl⟩ := mayLeave_send h
  rw [Failure.isOfServer]
  cases hrejection : failure.isRejection with
  | true => exact Bool.or_true _
  | false => rw [isTransport_of_outcome hrejection hfailure, Bool.true_or]

theorem Client.isOfServer_of_pushWithFallback {client : Client} {source body : String}
    {failure : Failure} {transcript : Dialogue.Transcript (Except Failure String)}
    (h : Dialogue.MayLeave world (client.pushWithFallback source body) transcript)
    (hfailure : transcript.result = .error failure) : failure.isOfServer = true := by
  rw [Failure.isOfServer, isTransport_of_pushWithFallback h hfailure, Bool.true_or]

namespace Command

variable {command : Command} {failure : Failure}
  {transcript : Dialogue.Transcript (Except Failure String)}

-- A command that has what it needs fails because of its server, or of a file that it cannot read.
theorem isOfServer_or_io
    (hgiven : command.kind.needsArgument = true → command.argument.isSome = true)
    (h : Dialogue.MayLeave world (command.dialogue tree) transcript)
    (hfailure : transcript.result = .error failure) :
    failure.isOfServer = true ∨ ∃ reason, failure = .io reason := by
  obtain ⟨kind, argument, client⟩ := command
  have hsome : kind.needsArgument = true → ∃ text, argument = some text :=
    fun hneeds => Option.isSome_iff_exists.mp (hgiven hneeds)
  cases kind with
  | deleteAll | commit | softCommit | optimize | ping =>
      exact .inl (Client.isOfServer_of_send h hfailure)
  | addData =>
      obtain ⟨rows, rfl⟩ := hsome rfl
      exact .inl (Client.isOfServer_of_pushWithFallback h hfailure)
  | delete =>
      obtain ⟨query, rfl⟩ := hsome rfl
      exact .inl (Client.isOfServer_of_send h hfailure)
  | addFile =>
      obtain ⟨path, rfl⟩ := hsome rfl
      cases hread : tree.read path with
      | error fault =>
          rw [dialogue_addFile_of_error rfl rfl hread] at h
          cases h with
          | say hrest =>
              rw [Dialogue.mayLeave_done hrest] at hfailure
              exact .inr ⟨_, (Except.error.inj hfailure).symm⟩
      | ok bytes =>
          rw [dialogue_addFile_of_ok rfl rfl hread] at h
          cases h with
          | say hrest =>
              obtain ⟨noted, last, _, hlast, rfl⟩ := Dialogue.mayLeave_bind hrest
              exact .inl (Client.isOfServer_of_pushWithFallback hlast hfailure)
  | updateViaStreamFile =>
      obtain ⟨path, rfl⟩ := hsome rfl
      obtain ⟨told, after, _, hafter, rfl⟩ := Dialogue.mayLeave_bind h
      change Dialogue.MayLeave world (client.streamFile tree.home path) after at hafter
      unfold Client.streamFile at hafter
      cases habsolute : AbsolutePath.ofPath tree.home (Text.utf8 path) with
      | error fault =>
          rw [habsolute] at hafter
          rw [Dialogue.mayLeave_done hafter] at hfailure
          exact .inr ⟨_, (Except.error.inj hfailure).symm⟩
      | ok absolute =>
          rw [habsolute] at hafter
          exact .inl (Client.isOfServer_of_send hafter hfailure)

theorem isOfServer_of_update (hkind : command.kind = .addData ∨ command.kind = .delete)
    (hargument : command.argument.isSome = true)
    (h : Dialogue.MayLeave world (command.dialogue tree) transcript)
    (hfailure : transcript.result = .error failure) : failure.isOfServer = true := by
  obtain ⟨text, htext⟩ := Option.isSome_iff_exists.mp hargument
  rcases hkind with hkind | hkind
  · rw [dialogue_addData hkind htext] at h
    exact Client.isOfServer_of_pushWithFallback h hfailure
  · rw [dialogue_delete hkind htext] at h
    exact Client.isOfServer_of_send h hfailure

-- Whatever comes of it, an upload or a deletion calls its server.
theorem calls_ne_nil_of_update (hkind : command.kind = .addData ∨ command.kind = .delete)
    (hargument : command.argument.isSome = true)
    (h : Dialogue.MayLeave world (command.dialogue tree) transcript) : transcript.calls ≠ [] := by
  obtain ⟨text, htext⟩ := Option.isSome_iff_exists.mp hargument
  rcases hkind with hkind | hkind
  · rw [dialogue_addData hkind htext] at h
    cases Client.mayLeave_pushWithFallback_iff.mp h.toCalm with
    | accepted | broken | refused => exact List.cons_ne_nil _ _
  · rw [dialogue_delete hkind htext] at h
    obtain ⟨reply, _, rfl⟩ := Client.mayLeave_send h
    exact List.cons_ne_nil _ _

end Command

-- All that a run has made has gone on to its end: the servers have been called, and nothing failed.
def Run.IsDone (run : Run) (tree : FileTree) (world : World) : Prop :=
  ∀ wave ∈ run.waves, ∀ one ∈ wave,
    Dialogue.MayLeave world (one.command.dialogue tree) one.transcript ∧
      one.transcript.calls ≠ [] ∧ ∃ answer, one.transcript.result = .ok answer

namespace ClusterCommand

variable {command : ClusterCommand} {run : Run} {failure : Failure}

theorem given_of_mem_plan {commands : List Command} {made : Command}
    (hcommands : commands ∈ (command.plan tree).waves) (hmade : made ∈ commands) :
    made.kind.needsArgument = true → made.argument.isSome = true := by
  rcases command.isBulk_or_uniform with hbulk | ⟨kind, hkind⟩
  · exact fun _ => (hbulk.of_mem_plan hcommands hmade).2
  · obtain ⟨count, hwave⟩ := isWave_of_mem_plan hcommands
    rw [IsWave, hkind] at hwave
    rw [hwave.kind_eq made hmade]
    exact hwave.given made hmade

section Task

variable (hrun : command.MayLeave tree world run) {wave : WaveRun} (hwave : wave ∈ run.waves)
  {one : CommandRun} (hone : one ∈ wave) (hfailure : one.transcript.result = .error failure)
include hrun hwave hone hfailure

-- A task never fails for what is the matter with its command.
theorem isMistake_of_task : failure.isMistake = false := by
  have hgiven := given_of_mem_plan (hrun.planned hwave) (List.mem_map_of_mem hone)
  rcases hrun.complete_or_panicked wave hwave one hone with hleave | ⟨_, hpanicked⟩
  · rcases Command.isOfServer_or_io hgiven hleave hfailure with hserver | ⟨reason, rfl⟩
    · exact Failure.isMistake_of_isOfServer hserver
    · rfl
  · rw [Except.error.inj (hfailure.symm.trans hpanicked)]
    rfl

-- The tasks of a bulk command read no files.
theorem isOfSource_of_task (hbulk : command.IsBulk) : failure.isOfSource = false := by
  obtain ⟨hkind, hargument⟩ := hbulk.of_mem_plan (hrun.planned hwave) (List.mem_map_of_mem hone)
  rcases hrun.complete_or_panicked wave hwave one hone with hleave | ⟨_, hpanicked⟩
  · exact Failure.isOfSource_of_isOfServer
      (Command.isOfServer_of_update hkind hargument hleave hfailure)
  · rw [Except.error.inj (hfailure.symm.trans hpanicked)]
    rfl

end Task

theorem MayLeave.isDone (hbulk : command.IsBulk) (hrun : command.MayLeave tree world run)
    (hclean : ∀ wave ∈ run.waves, wave.failures = []) : run.IsDone tree world := by
  intro wave hwave one hone
  obtain ⟨answer, hanswer⟩ := WaveRun.failures_eq_nil_iff.mp (hclean wave hwave) one hone
  obtain ⟨hkind, hargument⟩ := hbulk.of_mem_plan (hrun.planned hwave) (List.mem_map_of_mem hone)
  rcases hrun.complete_or_panicked wave hwave one hone with hleave | ⟨_, hpanicked⟩
  · exact ⟨hleave, Command.calls_ne_nil_of_update hkind hargument hleave, answer, hanswer⟩
  · exact nomatch hanswer.symm.trans hpanicked

-- A command with all the words that it needs, none of them empty.
structure IsProper (command : ClusterCommand) : Prop where
  argument : givenArgument command.argument = command.argument
  given : command.kind.needsArgument = true → command.argument.isSome = true

theorem isProper_of_create {target name : String} {argument : Option String} {database : Database}
    {settings : Settings}
    (hcreate : create target name argument database settings = .ok command) :
    command.IsProper := by
  obtain ⟨_, _, hargument, _, _, hgiven⟩ := create_eq_ok hcreate
  exact ⟨by rw [hargument, givenArgument_givenArgument], hargument ▸ hgiven⟩

-- A plan never begins a wave before it finds a mistake.
theorem ComesTo.eq_nil_of_isMistake {waves : List (List Command)}
    (hcomes : command.ComesTo tree waves (.error failure)) (hmistake : failure.isMistake = true) :
    waves = [] := by
  cases hcomes with
  | unresolved | unmade | unlisted => rfl
  | upTo _ _ _ hupTo =>
      have hfine := Failure.isMistake_of_isOfSource hupTo.isOfSource
      exact nomatch hmistake.symm.trans hfine
  | part => exact nomatch hmistake

theorem ComesTo.isMisuse_eq_false {waves : List (List Command)}
    (hcomes : command.ComesTo tree waves (.error failure)) (hproper : command.IsProper) :
    failure.isMisuse = false := by
  cases hcomes with
  | @unresolved fault => cases fault <;> rfl
  | unmade hkind hneeds hmissing =>
      have hgiven := hproper.given (by rw [hkind]; exact hneeds)
      rw [← hproper.argument, hmissing] at hgiven
      exact nomatch hgiven
  | unlisted _ hpaths =>
      rcases FileTree.failure_of_inputFiles hpaths with rfl | ⟨reason, rfl⟩ <;> rfl
  | upTo _ _ _ hupTo =>
      exact Failure.isMisuse_of_isMistake (Failure.isMistake_of_isOfSource hupTo.isOfSource)
  | part => rfl

-- A command of a kind can be made for every node: its name is known and its argument is not empty.
structure CanMake (command : ClusterCommand) (kind : CommandKind) (argument : Option String) :
    Prop where
  known : CommandKind.ofName? kind.name = some kind
  given : ∀ text, argument = some text → text ≠ ""
  made : ∀ node, ∃ single, command.commandFor node kind argument = .ok single

theorem canMake_of_ne_empty (kind : CommandKind) {argument : String} (hargument : argument ≠ "") :
    command.CanMake kind (some argument) where
  known := by cases kind <;> rfl
  given text htext := Option.some.inj htext ▸ hargument
  made node := ⟨_, command.commandFor_of_ne_empty node kind hargument⟩

-- What deletes the document of a row.
def deletionOf (source : Source) (row : String) : String :=
  s!"{source.idColumn}:{Source.idOf row}"

-- Whatever a command sends to nodes can be made: the command itself, the chunks of sources however
-- far these have been read, and the deletions of rows.
structure MakesAll (command : ClusterCommand) : Prop where
  uniform : ∀ kind, command.kind = .uniform kind → command.CanMake kind command.argument
  uploads : ∀ (source : Source) (chunk : String),
    (source.readChunk command.settings.maxLinesPerChunk).1 = .ok (some chunk) →
      command.CanMake .addData (some chunk)
  deletions : ∀ (source : Source) (row : String), source.readRow.1 = .ok (some row) →
    command.CanMake .delete (some (deletionOf source row))

theorem IsProper.canMake (hproper : command.IsProper) {kind : CommandKind}
    (hkind : command.kind = .uniform kind) : command.CanMake kind command.argument := by
  have hgiven : kind.needsArgument = true → command.argument.isSome = true :=
    fun hneeds => hproper.given (by rw [hkind]; exact hneeds)
  refine ⟨by cases kind <;> rfl, fun text htext hempty => ?_, fun node => ?_⟩
  · have hargument := hproper.argument
    rw [htext, hempty] at hargument
    exact nomatch hargument
  · refine ⟨_, (command.commandFor_eq node kind command.argument).trans (if_neg ?_)⟩
    rw [hproper.argument]
    cases hneeds : kind.needsArgument with
    | false => simp
    | true => simp [Option.isSome_iff_ne_none.mp (hgiven hneeds)]

theorem IsProper.makesAll (hproper : command.IsProper) : command.MakesAll where
  uniform _ hkind := hproper.canMake hkind
  uploads _ _ hchunk := canMake_of_ne_empty _ (Source.ne_empty_of_readChunk hchunk)
  deletions _ _ _ := canMake_of_ne_empty _ (query_ne_empty _ _)

-- Where work on files ends: at one that cannot be taken in, or within one that can be opened but
-- breaks off. What has been made is all for the files before it, and of one that breaks off what
-- its rows are good for.
inductive EndsWithin (command : ClusterCommand) (tree : FileTree) (targets : Targets)
    (paths : List String) : List (List Command) → Failure → Prop
  | upTo {tables : List Table} {failure : Failure}
      (hupTo : command.TakesUpTo tree paths tables failure) :
      EndsWithin command tree targets paths (tables.flatMap (command.tableWaves targets)) failure
  | part {tables : List Table} {table : Table} {fault : FileFault}
      (hpart : command.TakesPart tree paths tables table fault) :
      EndsWithin command tree targets paths
        (tables.flatMap (command.tableWaves targets) ++ command.partWaves targets table)
        (.io fault.message)

-- How a run tells what is wrong with what it was given.
structure ReportsMistakes (command : ClusterCommand) (tree : FileTree) (world : World)
    (run : Run) : Prop where
  -- the words and the settings were in order when the command was created
  proper : ∀ failure, run.result = .error failure → failure.isMisuse = false
  -- no wave has been begun, so nobody has been called
  early : ∀ failure, run.result = .error failure → failure.isMistake = true → run.waves = []
  -- a source that cannot be taken in is told after all before it, which are taken in to their ends
  -- without any failure, and before all waves of its own and of those behind it
  upTo : command.IsBulk → ∀ failure, run.result = .error failure → failure.isOfSource = true →
    ((tree.inputFiles (command.argument.getD "")).1 = .error failure ∧ run.waves = []) ∨
      run.IsDone tree world ∧ ∃ targets paths,
        command.database.targets command.target = .ok targets.nodes ∧
          (tree.inputFiles (command.argument.getD "")).1 = .ok paths ∧
          command.EndsWithin tree targets paths run.commands failure

theorem MayLeave.reportsMistakes (hproper : command.IsProper)
    (hrun : command.MayLeave tree world run) : command.ReportsMistakes tree world run := by
  have hends : ∀ failure, run.result = .error failure →
      (command.ComesTo tree run.commands (.error failure) ∧
        ∀ wave ∈ run.waves, wave.failures = []) ∨
        ∃ wave ∈ run.waves, ∃ one ∈ wave, one.transcript.result = .error failure := by
    intro failure hfailure
    rcases hrun.comesTo_or_fails with ⟨hcomes, hclean⟩ | ⟨brought, hbrought, hcame⟩
    · exact .inl ⟨hfailure ▸ hcomes, hclean⟩
    · obtain rfl := Except.error.inj (hbrought.symm.trans hfailure)
      exact .inr hcame
  constructor
  · intro failure hfailure
    rcases hends failure hfailure with ⟨hcomes, _⟩ | ⟨wave, hwave, one, hone, hcame⟩
    · exact hcomes.isMisuse_eq_false hproper
    · exact Failure.isMisuse_of_isMistake (isMistake_of_task hrun hwave hone hcame)
  · intro failure hfailure hmistake
    rcases hends failure hfailure with ⟨hcomes, _⟩ | ⟨wave, hwave, one, hone, hcame⟩
    · exact List.map_eq_nil_iff.mp (hcomes.eq_nil_of_isMistake hmistake)
    · exact nomatch hmistake.symm.trans (isMistake_of_task hrun hwave hone hcame)
  · intro hbulk failure hfailure hsource
    rcases hends failure hfailure with ⟨hcomes, hclean⟩ | ⟨wave, hwave, one, hone, hcame⟩
    · generalize hcommands : run.commands = commands at hcomes
      cases hcomes with
      | @unresolved fault => cases fault <;> exact nomatch hsource
      | unmade => exact nomatch hsource
      | unlisted _ hpaths => exact .inl ⟨hpaths, List.map_eq_nil_iff.mp hcommands⟩
      | upTo _ htargets hpaths hupTo =>
          exact .inr ⟨hrun.isDone hbulk hclean, _, _, htargets, hpaths, .upTo hupTo⟩
      | part _ htargets hpaths hpart =>
          exact .inr ⟨hrun.isDone hbulk hclean, _, _, htargets, hpaths, .part hpart⟩
    · exact nomatch hsource.symm.trans (isOfSource_of_task hrun hwave hone hcame hbulk)

end ClusterCommand

def Run.calls (run : Run) : List (Request × Reply) :=
  run.waves.flatten.flatMap (·.transcript.calls)

namespace CommandLine

-- An invocation that has read its settings and its topology and created its command. What it calls
-- is what its command calls, and no mistake of the operator has ended it.
def Invocation.IsInOrder (invocation : Invocation) (tree : FileTree) (network : Network)
    (conf name : String) (argument : Option String) (target : String) : Prop :=
  ∃ settings database told command, settingsOf tree invocation = .ok settings ∧
    databaseOf tree conf = .ok (database, told) ∧
    ClusterCommand.create target name argument database settings = .ok command ∧
    (invocation.run tree network).calls = (command.run tree network).calls ∧
    ∀ failure, (command.run tree network).result = .error failure → failure.isMistake = false

section Cluster

variable {invocation : Invocation} {network : Network} {conf name target reason : String}
  {argument : Option String} {database : Database} {settings : Settings} {told : Log}
  {command : ClusterCommand} {failure : Failure}

theorem calls_runCluster
    (hcreate : ClusterCommand.create target name argument database settings = .ok command) :
    (runCluster tree network settings target name argument database told).calls =
      (command.run tree network).calls := by
  cases hresult : (command.run tree network).result <;>
    simp only [runCluster, hcreate, hresult, succeed, failWith, Run.calls]

theorem calls_runCluster_of_error
    (hcreate : ClusterCommand.create target name argument database settings = .error failure) :
    (runCluster tree network settings target name argument database told).calls = [] := by
  simp only [runCluster, hcreate, failWith]

theorem calls_of_settings (hsettings : settingsOf tree invocation = .error reason) :
    (invocation.run tree network).calls = [] := by
  simp only [Invocation.run, hsettings, failWith]

variable (haction : invocation.action = .cluster conf name argument target)
  (hsettings : settingsOf tree invocation = .ok settings)
include haction hsettings

theorem calls_of_database (hdatabase : databaseOf tree conf = .error reason) :
    (invocation.run tree network).calls = [] := by
  simp only [Invocation.run, hsettings, haction]
  -- the body as it stands, since its equation takes long to derive
  delta withDatabase
  simp only [hdatabase, failWith]

theorem run_of_database (hdatabase : databaseOf tree conf = .ok (database, told)) :
    invocation.run tree network =
      runCluster tree network settings target name argument database told := by
  simp only [Invocation.run, hsettings, haction]
  delta withDatabase
  simp only [hdatabase]

end Cluster

theorem Invocation.isInOrder_of_calls {invocation : Invocation} {network : Network}
    {conf name target : String} {argument : Option String}
    (haction : invocation.action = .cluster conf name argument target)
    (hcalls : (invocation.run tree network).calls ≠ []) :
    invocation.IsInOrder tree network conf name argument target := by
  cases hsettings : settingsOf tree invocation with
  | error reason => exact absurd (calls_of_settings hsettings) hcalls
  | ok settings =>
      cases hdatabase : databaseOf tree conf with
      | error reason => exact absurd (calls_of_database haction hsettings hdatabase) hcalls
      | ok found =>
          obtain ⟨database, told⟩ := found
          have hrun : invocation.run tree network =
              runCluster tree network settings target name argument database told :=
            run_of_database haction hsettings hdatabase
          cases hcreate : ClusterCommand.create target name argument database settings with
          | error failure =>
              exact absurd (hrun ▸ calls_runCluster_of_error hcreate) hcalls
          | ok command =>
              have hsame : (invocation.run tree network).calls =
                  (command.run tree network).calls := hrun ▸ calls_runCluster hcreate
              refine ⟨settings, database, told, command, hsettings, hdatabase, hcreate, hsame, ?_⟩
              have hleave : command.MayLeave tree .calm (command.run tree network) :=
                ClusterCommand.mayLeave_run (fun _ => trivial) command tree
              have hreports := hleave.reportsMistakes (ClusterCommand.isProper_of_create hcreate)
              intro failure hfailure
              refine Bool.eq_false_iff.mpr fun hmistake => hcalls ?_
              rw [hsame, Run.calls, hreports.early failure hfailure hmistake]
              rfl

end CommandLine

namespace FileTree

-- A directory of two files, the second one empty.
def halfEmpty : FileTree :=
  ⟨[(["d"], .directory), (["d", "first"], .file ⟨[105, 100, 10, 49, 10], none⟩),
    (["d", "second"], .file ⟨[], none⟩)], []⟩

theorem find_halfEmpty : halfEmpty.find "d" = .ok (["d"], .directory) := by
  have hsteps : steps "d" = ["d"] := by decide
  have hname : ¬maxName < "d".utf8ByteSize := by decide
  have hlocate : halfEmpty.locate "d" = walk halfEmpty maxLinks [] ["d"] := by
    rw [locate_eq (by decide) (by decide), if_neg (by decide), hsteps]
    rfl
  refine find_of_locate (hlocate.trans ?_) rfl
  simp [walk, entry?, halfEmpty, hname]

theorem content_halfEmpty {name : String} {found : FileContent} (hname : IsName name)
    (hshort : (join "d" name).utf8ByteSize < maxPath)
    (hfile : halfEmpty.entry? ["d", name] = some (.file found)) :
    halfEmpty.content (join "d" name) = .ok found := by
  have hlocate := locate_join find_halfEmpty hname hfile hshort
  simp only [content, find_of_locate hlocate hfile, bind, Except.bind]

theorem inputFiles_halfEmpty :
    (halfEmpty.inputFiles "d").1 = .ok [join "d" "first", join "d" "second"] := by
  have hnames : halfEmpty.fileNames ["d"] = ["first", "second"] := by
    simp [fileNames, children, halfEmpty, List.mergeSort]
  simp [inputFiles, find_halfEmpty, hnames]

theorem takesUpTo_halfEmpty (command : ClusterCommand) :
    command.TakesUpTo halfEmpty [join "d" "first", join "d" "second"] [("id", ["1"])]
      (.emptySource (join "d" "second")) := by
  have hfirst : halfEmpty.content (join "d" "first") = .ok ⟨[105, 100, 10, 49, 10], none⟩ :=
    content_halfEmpty (by constructor <;> decide) (by decide) rfl
  have hsecond : halfEmpty.content (join "d" "second") = .ok ⟨[], none⟩ :=
    content_halfEmpty (by constructor <;> decide) (by decide) rfl
  have hholds : halfEmpty.Holds (join "d" "first") "id" ["1"] :=
    ⟨_, read_eq_ok_iff.mpr hfirst, rfl, rfl⟩
  refine ⟨[join "d" "first"], join "d" "second", [], rfl,
    .cons (ClusterCommand.takes_of_holds hholds) .nil, ?_⟩
  rw [ofFile_of_content hsecond]
  rfl

end FileTree

namespace ClusterCommand

-- Mistakes of operators come out before anybody is called: on the command line, and whenever a
-- command that has been created is run, whatever the servers answer and however its tasks end.
theorem reportsMistakes_of_create (tree : FileTree) :
    (∀ (invocation : CommandLine.Invocation) (conf name : String) (argument : Option String)
      (target : String), invocation.action = .cluster conf name argument target →
      ∀ network, (invocation.run tree network).calls ≠ [] →
        invocation.IsInOrder tree network conf name argument target) ∧
    ∀ {target name : String} {argument : Option String} {database : Database}
      {settings : Settings} {command : ClusterCommand},
      create target name argument database settings = .ok command →
      command.MakesAll ∧
        (∀ world run, command.MayLeave tree world run → command.ReportsMistakes tree world run) ∧
        ∀ network : Network,
          command.ReportsMistakes tree (.replying network) (command.run tree network) := by
  refine ⟨fun invocation conf name argument target haction network hcalls => ?_, ?_⟩
  · exact CommandLine.Invocation.isInOrder_of_calls haction hcalls
  · intro target name argument database settings command hcreate
    have hproper := isProper_of_create hcreate
    refine ⟨hproper.makesAll, fun world run hrun => hrun.reportsMistakes hproper, fun network => ?_⟩
    have hrun : command.MayLeave tree (.replying network) (command.run tree network) :=
      mayLeave_run (fun _ => rfl) command tree
    exact hrun.reportsMistakes hproper

theorem result_halfEmpty :
    ((forPair .batchDelete (some "d")).run .halfEmpty fun _ => .answered 200 []).result =
      .error (.emptySource (FileTree.join "d" "second")) := by
  have hbulk : (forPair .batchDelete (some "d")).IsBulk := .inr (.inr rfl)
  have hrun : (forPair .batchDelete (some "d")).MayLeave .halfEmpty .accepting
      ((forPair .batchDelete (some "d")).run .halfEmpty fun _ => .answered 200 []) :=
    mayLeave_run (fun _ => rfl) _ _
  have hstops := stops_plan_of_upTo hbulk (targets_forPair _ _) FileTree.inputFiles_halfEmpty
    (FileTree.takesUpTo_halfEmpty _)
  exact (hrun.follows.of_clean (hbulk.clean_of_accepting hrun)).2.trans hstops.outcome

-- The rows of the first file are deleted before it turns out that the second one is empty. A target
-- that nobody knows comes out before anybody is called.
theorem reportsMistakes_halfEmpty :
    (((forPair .batchDelete (some "d")).run .halfEmpty fun _ => .answered 200 []).IsDone .halfEmpty
        (.replying fun _ => .answered 200 []) ∧
      ∃ targets paths, (forPair .batchDelete (some "d")).EndsWithin .halfEmpty targets paths
        ((forPair .batchDelete (some "d")).run .halfEmpty fun _ => .answered 200 []).commands
        (.emptySource (FileTree.join "d" "second"))) ∧
    ∀ network : Network,
      ({ forPair .batchDelete (some "d") with target := "c" }.run .halfEmpty network).waves =
        [] := by
  have hcreate : ∀ target : String,
      create target "batchDelete" (some "d") (.indexed Targets.pair.nodes)
          { maxLinesPerChunk := 1 } =
        .ok { forPair .batchDelete (some "d") with target } := fun _ => rfl
  constructor
  · have hreports := ((reportsMistakes_of_create .halfEmpty).2 (hcreate "all")).2.2
      fun _ => .answered 200 []
    rcases hreports.upTo (.inr (.inr rfl)) _ result_halfEmpty rfl with ⟨hpaths, _⟩ | hupTo
    · exact nomatch FileTree.inputFiles_halfEmpty.symm.trans hpaths
    · obtain ⟨hdone, targets, paths, _, _, hends⟩ := hupTo
      exact ⟨hdone, targets, paths, hends⟩
  · intro network
    have hreports := ((reportsMistakes_of_create .halfEmpty).2 (hcreate "c")).2.2 network
    exact hreports.early (.targetNotFound "no instance named c") rfl rfl

end ClusterCommand

end IndexFleet
