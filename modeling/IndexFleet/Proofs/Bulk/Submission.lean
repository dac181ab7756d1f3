import IndexFleet.Proofs.Bulk.Distribution
import IndexFleet.Proofs.Execution.Log
import IndexFleet.Proofs.Source.Plain
import IndexFleet.Proofs.Upload.Degradation
import IndexFleet.Proofs.Upload.Refusal

namespace IndexFleet

-- A body that is uploaded to a server at first, and the rows that it holds.
abbrev Part := String × List String

-- What a task leaves that uploads a part. It may tell something before that.
inductive Part.Leaves (part : Part) (node : Node) :
    Dialogue.Transcript (Except Failure String) → Prop
  | intro {client : Client} {source : String} {told : Log}
      {rest : Dialogue.Transcript (Except Failure String)}
      (hclient : client.rowsRequest = node.upload) (htold : told.skipped = [])
      (hdegrades : client.Degrades source part.1 rest) :
      Leaves part node ⟨rest.calls, told ++ rest.log, rest.result⟩

-- How a part is submitted row by row after it is refused as a whole.
structure Part.IsSubmitted (part : Part) (node : Node) (judge : Request → Bool) (header : String)
    (transcript : Dialogue.Transcript (Except Failure String)) : Prop where
  succeeds : ∃ answer, transcript.result = .ok answer
  first : transcript.calls.head?.map (·.1) = some (node.upload part.1)
  later : transcript.calls.tail.map (·.1) = part.2.map (node.rowUpload header)
  skipped : transcript.log.skipped = part.2.filter fun row => !judge (node.rowUpload header row)

namespace Part

variable {part : Part} {node : Node} {header : String} {judge : Request → Bool}
  {transcript : Dialogue.Transcript (Except Failure String)}

theorem rows_eq (hrows : Client.rowsOneByOne part.1 = some (header, part.2)) :
    (Text.lines part.1).headD "" = header ∧ Client.rowsBelow part.1 = part.2 := by
  have hboth := Client.rowsOneByOne_getD part.1
  rw [hrows, Option.getD_some] at hboth
  exact ⟨congrArg (·.1) hboth.symm, congrArg (·.2) hboth.symm⟩

theorem rowRequest_eq {client : Client} (hclient : client.rowsRequest = node.upload) :
    client.rowRequest header = node.rowUpload header :=
  funext fun _ => congrFun hclient _

theorem Leaves.isSubmitted (hleaves : part.Leaves node transcript)
    (hrows : Client.rowsOneByOne part.1 = some (header, part.2))
    (hjudged : IsJudged judge transcript.calls) :
    part.IsSubmitted node judge header transcript := by
  obtain ⟨hclient, htold, hdegrades⟩ := hleaves
  obtain ⟨hheader, hbelow⟩ := rows_eq hrows
  obtain ⟨hresult, hwhole, hrest, hskipped⟩ := hdegrades.of_judged hjudged
  rw [hheader, hbelow, rowRequest_eq hclient] at hrest hskipped
  rw [hclient] at hwhole
  refine ⟨⟨"", hresult⟩, hwhole, hrest, ?_⟩
  rw [Log.skipped_append, htold, hskipped, List.nil_append]

theorem Leaves.isJudged (hleaves : part.Leaves node transcript)
    (hrows : Client.rowsOneByOne part.1 = some (header, part.2)) {network : Network}
    (hreplies : ∀ call ∈ transcript.calls, call.2 = network call.1)
    (hwhole : (network (node.upload part.1)).isRefusing = true)
    (hcomplete : ∀ row ∈ part.2, (network (node.rowUpload header row)).isComplete = true) :
    IsJudged (fun request => (network request).isAccepting) transcript.calls := by
  obtain ⟨hclient, _, hdegrades⟩ := hleaves
  obtain ⟨hheader, hbelow⟩ := rows_eq hrows
  refine hdegrades.isJudged hreplies ?_ ?_
  · rw [hclient]
    exact hwhole
  · rw [hheader, hbelow, rowRequest_eq hclient]
    exact hcomplete

end Part

-- The calls with which the tasks of a run begin, and those with which they go on.
def Run.firstCalls (run : Run) : List Request :=
  run.waves.flatten.flatMap fun one => (one.transcript.calls.head?.map (·.1)).toList

def Run.laterCalls (run : Run) : List Request :=
  run.waves.flatten.flatMap fun one => one.transcript.calls.tail.map (·.1)

def Run.IsJudged (run : Run) (judge : Request → Bool) : Prop :=
  ∀ one ∈ run.waves.flatten, IndexFleet.IsJudged judge one.transcript.calls

-- How rows are submitted to a server that refuses all parts: the parts are uploaded, and then each
-- row is, below the header. Exactly the rows that are refused again are told to be skipped.
structure Run.Submits (run : Run) (node : Node) (judge : Request → Bool) (header : String)
    (rows : List String) (parts : List Part) : Prop where
  succeeds : run.result = .ok ()
  first : run.firstCalls = parts.map fun part => node.upload part.1
  later : run.laterCalls = rows.map (node.rowUpload header)
  skipped : run.log.skipped.Perm (rows.filter fun row => !judge (node.rowUpload header row))

-- Two runs that submit the same rows in parts of their own. The order of rows does not count.
structure Run.SubmitAlike (run other : Run) (node : Node) (judge : Request → Bool)
    (header : String) (rows : List String) (parts more : List Part) : Prop where
  submits : run.Submits node judge header rows parts
  other_submits : other.Submits node judge header rows more
  bodies : (run.laterCalls.map (·.body)).Perm (other.laterCalls.map (·.body))
  skipped : run.log.skipped.Perm other.log.skipped

theorem Run.Submits.alike {run other : Run} {node : Node} {judge : Request → Bool}
    {header : String} {rows : List String} {parts more : List Part}
    (hrun : run.Submits node judge header rows parts)
    (hother : other.Submits node judge header rows more) :
    run.SubmitAlike other node judge header rows parts more where
  submits := hrun
  other_submits := hother
  bodies := by rw [hrun.later, hother.later]
  skipped := hrun.skipped.trans hother.skipped.symm

-- Everything besides what its tasks tell skips nothing.
theorem skipped?_of_mayTell {command : ClusterCommand} {tree : FileTree} {entry : Entry}
    (hquiet : (command.plan tree).Tells (·.skipped? = none)) (htell : command.MayTell tree entry) :
    entry.skipped? = none := by
  cases htell with
  | planned hplan => exact hquiet entry hplan
  | verdict hverdict =>
      rename_i result
      rw [hverdict]
      cases result <;> rfl
  | ending hending =>
      cases hending with
      | @recorded task htask =>
          unfold Task.notes at htask
          split at htask
          · cases htask
          · exact List.mem_singleton.mp htask ▸ rfl
          · exact List.mem_singleton.mp htask ▸ rfl
      | @left group hgroup =>
          unfold SyncGroup.decrement at hgroup
          split at hgroup
          · rw [List.mem_singleton.mp hgroup]
            refine Entry.skipped?_of_not_prefix ?_
            unfold skipMark
            simp [List.isPrefixOf]
          · cases hgroup

-- All parts are submitted, one by each task.
theorem submitted_flatten {parts : List Part} {runs : List CommandRun} {node : Node}
    {header : String} {judge : Request → Bool}
    (hparts : List.Forall₂ (fun part (one : CommandRun) =>
      part.IsSubmitted node judge header one.transcript) parts runs) :
    (runs.flatMap fun one => (one.transcript.calls.head?.map (·.1)).toList) =
        parts.map (fun part => node.upload part.1) ∧
      (runs.flatMap fun one => one.transcript.calls.tail.map (·.1)) =
        (parts.flatMap (·.2)).map (node.rowUpload header) ∧
      Log.skipped (runs.flatMap (·.transcript.log)) =
        (parts.flatMap (·.2)).filter fun row => !judge (node.rowUpload header row) := by
  induction hparts with
  | nil => exact ⟨rfl, rfl, rfl⟩
  | cons hone _ ih =>
      obtain ⟨hfirst, hlater, hskipped⟩ := ih
      refine ⟨?_, ?_, ?_⟩
      · rw [List.flatMap_cons, hone.first, hfirst]
        rfl
      · rw [List.flatMap_cons, hone.later, hlater, List.flatMap_cons, List.map_append]
      · rw [List.flatMap_cons, Log.skipped_append, hone.skipped, hskipped, List.flatMap_cons,
          List.filter_append]

namespace ClusterCommand

-- A command whose tasks upload one part each, and that tells of no skipped row by itself.
structure Uploads (command : ClusterCommand) (tree : FileTree) (node : Node) (header : String)
    (rows : List String) (parts : List Part) (make : Part → Command) : Prop where
  outcome : (command.plan tree).outcome = .ok ()
  made : (command.plan tree).waves.flatten = parts.map make
  leaves : ∀ part ∈ parts, ∀ transcript,
    Dialogue.MayLeave .calm ((make part).dialogue tree) transcript → part.Leaves node transcript
  read : ∀ part ∈ parts, Client.rowsOneByOne part.1 = some (header, part.2)
  rows_eq : parts.flatMap (·.2) = rows
  quiet : (command.plan tree).Tells (·.skipped? = none)

variable {command : ClusterCommand} {tree : FileTree} {world : World} {node : Node}
  {header : String} {rows : List String} {parts : List Part} {make : Part → Command}
  {judge : Request → Bool} {run : Run}

theorem Uploads.leaves_of_made (huploads : command.Uploads tree node header rows parts make)
    (hcalm : ¬world.mayPanic) (hrun : command.MayLeave tree world run) {one : CommandRun}
    (hone : one ∈ run.waves.flatten) {part : Part} (hpart : part ∈ parts)
    (hcommand : one.command = make part) : part.Leaves node one.transcript := by
  obtain ⟨wave, hwave, hmem⟩ := List.mem_flatten.mp hone
  have hleave := (hrun.complete hcalm wave hwave one hmem).toCalm
  rw [hcommand] at hleave
  exact huploads.leaves part hpart _ hleave

theorem Uploads.exists_part (huploads : command.Uploads tree node header rows parts make)
    (hcalm : ¬world.mayPanic) (hrun : command.MayLeave tree world run) :
    ∀ one ∈ run.waves.flatten, ∃ part ∈ parts, part.Leaves node one.transcript := by
  intro one hone
  obtain ⟨wave, hwave, hmem⟩ := List.mem_flatten.mp hone
  have hmade : one.command ∈ (command.plan tree).waves.flatten :=
    List.mem_flatten_of_mem (hrun.planned hwave) (List.mem_map_of_mem hmem)
  rw [huploads.made] at hmade
  obtain ⟨part, hpart, hcommand⟩ := List.mem_map.mp hmade
  exact ⟨part, hpart, huploads.leaves_of_made hcalm hrun hone hpart hcommand.symm⟩

theorem Uploads.submits (huploads : command.Uploads tree node header rows parts make)
    (hcalm : ¬world.mayPanic) (hrun : command.MayLeave tree world run)
    (hjudged : run.IsJudged judge) : run.Submits node judge header rows parts := by
  have hclean : ∀ wave ∈ run.waves, wave.failures = [] := by
    intro wave hwave
    rw [WaveRun.failures_eq_nil_iff]
    intro one hone
    have hmem : one ∈ run.waves.flatten := List.mem_flatten_of_mem hwave hone
    obtain ⟨part, hpart, hleaves⟩ := huploads.exists_part hcalm hrun one hmem
    exact (hleaves.isSubmitted (huploads.read part hpart) (hjudged one hmem)).succeeds
  obtain ⟨hcommands, hresult⟩ := hrun.follows.of_clean hclean
  have hmade : run.waves.flatten.map (·.command) = parts.map make := by
    rw [← huploads.made, ← hcommands, List.map_flatten]
    rfl
  have hparts := forall₂_of_map_eq hmade fun part hpart one hone hcommand =>
    (huploads.leaves_of_made hcalm hrun hone hpart hcommand).isSubmitted
      (huploads.read part hpart) (hjudged one hone)
  obtain ⟨hwhole, hrows, hskipped⟩ := submitted_flatten hparts
  rw [huploads.rows_eq] at hrows hskipped
  obtain ⟨others, hperm, hothers⟩ := hrun.log_perm
  have hsilent : Log.skipped others = [] := by
    apply Log.skipped_of_none
    exact fun entry hentry => skipped?_of_mayTell huploads.quiet (hothers entry hentry)
  refine ⟨hresult.trans huploads.outcome, hwhole, hrows, ?_⟩
  have htold : run.log.skipped.Perm
      (Log.skipped (run.waves.flatten.flatMap (·.transcript.log)) ++ Log.skipped others) := by
    rw [← Log.skipped_append]
    exact hperm.filterMap Entry.skipped?
  rwa [hsilent, List.append_nil, hskipped] at htold

theorem Uploads.isJudged (huploads : command.Uploads tree node header rows parts make)
    {network : Network} (hrun : command.MayLeave tree (.replying network) run)
    (hwhole : ∀ part ∈ parts, (network (node.upload part.1)).isRefusing = true)
    (hrows : ∀ row ∈ rows, (network (node.rowUpload header row)).isComplete = true) :
    run.IsJudged fun request => (network request).isAccepting := by
  intro one hone
  obtain ⟨part, hpart, hleaves⟩ := huploads.exists_part id hrun one hone
  obtain ⟨wave, hwave, hmem⟩ := List.mem_flatten.mp hone
  have hreplies := Dialogue.mayReply_of_mayLeave (hrun.complete id wave hwave one hmem)
  refine hleaves.isJudged (huploads.read part hpart) hreplies (hwhole part hpart) ?_
  exact fun row hrow => hrows row (huploads.rows_eq ▸ List.mem_flatMap_of_mem hpart hrow)

-- A command that takes in a file for a single server, as a whole or in chunks.
inductive TakesIn (command : ClusterCommand) (tree : FileTree) (node : Node) (bytes : Text.Bytes) :
    Prop
  | file {path : String} (hkind : command.kind = .uniform .addFile)
      (htargets : command.database.targets command.target = .ok [node])
      (hargument : command.argument = some path) (hread : tree.read path = .ok bytes)
  | dir {path : String} (hkind : command.kind = .addDir)
      (htargets : command.database.targets command.target = .ok [node])
      (hlines : 0 < command.settings.maxLinesPerChunk)
      (hpaths : (tree.inputFiles (command.argument.getD "")).1 = .ok [path])
      (hread : tree.read path = .ok bytes)

-- What a command uploads at first: the whole file, or its chunks.
def partsOf (command : ClusterCommand) (bytes : Text.Bytes) (header : String) (rows : List String) :
    List Part :=
  match command.kind with
  | .addDir => (pieces command.settings.maxLinesPerChunk rows).map fun chunk =>
      (Source.chunkText header chunk, chunk)
  | _ => [(Text.Utf8.decode bytes, rows)]

variable {bytes : Text.Bytes} {path : String}

theorem quiet_info (message : String) :
    (Plan.notes [.info message]).Tells (·.skipped? = none) :=
  Plan.tells_notes (List.forall_mem_singleton.mpr rfl)

theorem uploads_file (hplain : Source.IsPlain bytes header rows)
    (hkind : command.kind = .uniform .addFile)
    (htargets : command.database.targets command.target = .ok [node])
    (hargument : command.argument = some path) (hread : tree.read path = .ok bytes) :
    command.Uploads tree node header rows [(Text.Utf8.decode bytes, rows)] fun _ =>
      command.commandAt node .addFile (some path) := by
  let targets : Targets := ⟨[node], Nat.one_pos⟩
  have hgiven : givenArgument command.argument = some path := by
    rw [hargument, givenArgument_of_ne_empty (FileTree.ne_empty_of_read hread)]
  have hneeded : CommandKind.needsArgument .addFile = true →
      (givenArgument command.argument).isSome = true :=
    fun _ => hgiven ▸ rfl
  have htargets : command.database.targets command.target = .ok targets.nodes := htargets
  have hmakes : (command.plan tree).Makes _ := makes_plan_of_uniform hkind htargets hneeded
  refine ⟨hmakes.outcome, ?_, List.forall_mem_singleton.mpr fun transcript hleave => ?_,
    List.forall_mem_singleton.mpr hplain.rowsOneByOne_decode, List.flatMap_singleton _ _, ?_⟩
  · rw [hmakes.waves, hgiven]
    rfl
  · obtain ⟨rest, hdegrades, rfl⟩ := (Command.mayLeave_addFile_iff hread).mp hleave
    refine .intro rfl (Log.skipped_of_none (List.forall_mem_cons.mpr ⟨rfl, ?_⟩)) hdegrades
    intro entry hentry
    exact Entry.skipped?_of_isDamageNote (Source.isDamageNote_damageNotes bytes path entry hentry)
  · rw [plan_of_targets command tree targets htargets, planFor, hkind]
    simp only [everywhere_eq [] hneeded]
    exact (quiet_info _).andThen (Plan.tells_wave (List.forall_mem_nil _))

-- Taking in a source tells of damaged text, and of nothing that is skipped.
theorem quiet_dir {targets : Targets} (hkind : command.kind = .addDir)
    (htargets : command.database.targets command.target = .ok targets.nodes)
    (hpaths : (tree.inputFiles (command.argument.getD "")).1 = .ok [path])
    (hholds : tree.Holds path header rows) :
    (command.plan tree).Tells (·.skipped? = none) := by
  obtain ⟨source, hsource, _, _⟩ := hholds.ofFile
  obtain ⟨htold, htells⟩ := Source.isDamageNote_ofFile (Prod.ext hsource rfl)
  have hsilent : ∀ entry, Source.IsDamageNote entry → entry.skipped? = none :=
    fun entry => Entry.skipped?_of_isDamageNote
  rw [plan_of_targets command tree targets htargets, planFor, hkind]
  refine (quiet_info _).andThen (Plan.tells_attempt hpaths ?_ ?_)
  · rw [FileTree.told_of_inputFiles hpaths]
    exact List.forall_mem_nil _
  · refine Plan.tells_sequence (List.forall_mem_singleton.mpr ?_)
    refine Plan.tells_attempt hsource (fun entry hentry => hsilent entry (htold entry hentry)) ?_
    exact tells_addSource path (fun _ => rfl) (htells.imp hsilent)

-- With a single server, the turn of a chunk does not count.
theorem flatten_sourceWaves_of_single {targets : Targets} (htargets : targets.nodes = [node]) :
    (command.sourceWaves targets header rows).flatten =
      (pieces command.settings.maxLinesPerChunk rows).map fun chunk =>
        command.commandAt node .addData (some (Source.chunkText header chunk)) := by
  have hturn : ∀ index, targets.turn index = node := fun index => by
    simp [Targets.turn, htargets, Nat.mod_one]
  have hchunk : command.chunkCommand targets header = fun chunk =>
      command.commandAt node .addData (some (Source.chunkText header chunk.1)) :=
    funext fun chunk => by rw [chunkCommand, hturn]
  rw [flatten_sourceWaves_eq, hchunk]
  conv_rhs => rw [← List.zipIdx_map_fst 0 (pieces _ rows), List.map_map]
  rfl

theorem uploads_dir (hplain : Source.IsPlain bytes header rows) (hkind : command.kind = .addDir)
    (htargets : command.database.targets command.target = .ok [node])
    (hlines : 0 < command.settings.maxLinesPerChunk)
    (hpaths : (tree.inputFiles (command.argument.getD "")).1 = .ok [path])
    (hread : tree.read path = .ok bytes) :
    command.Uploads tree node header rows
      ((pieces command.settings.maxLinesPerChunk rows).map fun chunk =>
        (Source.chunkText header chunk, chunk))
      fun part => command.commandAt node .addData (some part.1) := by
  let targets : Targets := ⟨[node], Nat.one_pos⟩
  have htargets : command.database.targets command.target = .ok targets.nodes := htargets
  have hholds : tree.Holds path header rows := ⟨bytes, hread, hplain.header, hplain.rows⟩
  have hready : command.IsReady tree targets [(header, rows)] :=
    ⟨hkind, htargets, hlines, [path], hpaths, .cons hholds .nil⟩
  have hmakes := hready.makes_plan
  have hflat := flatten_pieces hlines rows
  refine ⟨hmakes.outcome, ?_, fun part _ transcript hleave => ?_, fun part hpart => ?_, ?_,
    quiet_dir hkind htargets hpaths hholds⟩
  · rw [hmakes.waves, List.flatMap_singleton, flatten_sourceWaves_of_single rfl, List.map_map]
    rfl
  · have hnone : Log.skipped [] = [] := rfl
    exact .intro rfl hnone (Command.mayLeave_addData_iff.mp hleave)
  · obtain ⟨chunk, hchunk, rfl⟩ := List.mem_map.mp hpart
    refine hplain.rowsOneByOne_chunk fun row hrow => ?_
    exact hflat ▸ List.mem_flatten_of_mem hchunk hrow
  · simpa [List.flatMap_map] using hflat

theorem TakesIn.exists_uploads (htakes : command.TakesIn tree node bytes)
    (hplain : Source.IsPlain bytes header rows) :
    ∃ make, command.Uploads tree node header rows (command.partsOf bytes header rows) make := by
  unfold partsOf
  cases htakes with
  | file hkind htargets hargument hread =>
      rw [hkind]
      exact ⟨_, uploads_file hplain hkind htargets hargument hread⟩
  | dir hkind htargets hlines hpaths hread =>
      rw [hkind]
      exact ⟨_, uploads_dir hplain hkind htargets hlines hpaths hread⟩

-- A server that refuses everything but single rows gets the same rows of a plain file, and the same
-- rows are skipped, whether the file is uploaded as a whole or in chunks of any size.
theorem submitAlike_of_takesIn {first second : ClusterCommand}
    (hplain : Source.IsPlain bytes header rows) (hfirst : first.TakesIn tree node bytes)
    (hsecond : second.TakesIn tree node bytes) :
    (∀ judge run other, first.MayLeave tree .calm run → second.MayLeave tree .calm other →
        run.IsJudged judge → other.IsJudged judge →
        run.SubmitAlike other node judge header rows (first.partsOf bytes header rows)
          (second.partsOf bytes header rows)) ∧
      ∀ network : Network,
        (∀ part ∈ first.partsOf bytes header rows ++ second.partsOf bytes header rows,
          (network (node.upload part.1)).isRefusing = true) →
        (∀ row ∈ rows, (network (node.rowUpload header row)).isComplete = true) →
        ∀ run other, first.MayLeave tree (.replying network) run →
          second.MayLeave tree (.replying network) other →
          run.SubmitAlike other node (fun request => (network request).isAccepting) header rows
            (first.partsOf bytes header rows) (second.partsOf bytes header rows) := by
  obtain ⟨make, huploads⟩ := hfirst.exists_uploads hplain
  obtain ⟨remake, hmore⟩ := hsecond.exists_uploads hplain
  refine ⟨fun judge run other hrun hother hjudged hsame => ?_, ?_⟩
  · exact (huploads.submits id hrun hjudged).alike (hmore.submits id hother hsame)
  · intro network hwhole hrows run other hrun hother
    obtain ⟨hhere, hthere⟩ := List.forall_mem_append.mp hwhole
    have hjudged := huploads.isJudged hrun hhere hrows
    have hsame := hmore.isJudged hother hthere hrows
    exact (huploads.submits id hrun hjudged).alike (hmore.submits id hother hsame)

-- A server that takes in nothing but a single row.
def onlyFirstRow : Network := fun request =>
  if request.body = "id\n1" then .answered 200 [] else .answered 400 []

def forOne (kind : ClusterCommandKind) (lines : Nat) : ClusterCommand :=
  ⟨"all", kind, some "rows", (.indexed [.bare "a" 1 .master none]), { maxLinesPerChunk := lines }⟩

theorem submitAlike_twoRows :
    ((forOne (.uniform .addFile) 1).run .twoRows onlyFirstRow).SubmitAlike
      ((forOne .addDir 1).run .twoRows onlyFirstRow) (.bare "a" 1 .master none)
      (fun request => (onlyFirstRow request).isAccepting) "id" ["1", "2"]
      [("id\n1\n2\n", ["1", "2"])] [("id\n1\n", ["1"]), ("id\n2\n", ["2"])] := by
  have hlines : Source.rawLines [105, 100, 10, 49, 10, 50, 10] = [[105, 100], [49], [50]] := rfl
  have hplain : Source.IsPlain [105, 100, 10, 49, 10, 50, 10] "id" ["1", "2"] := by
    refine ⟨rfl, rfl, ?_, ?_⟩
    · rw [hlines]
      exact List.forall_mem_cons.mpr ⟨.inr rfl, List.forall_mem_singleton.mpr (.inr rfl)⟩
    · rw [hlines]
      decide
  have hfile : (forOne (.uniform .addFile) 1).TakesIn .twoRows (.bare "a" 1 .master none)
      [105, 100, 10, 49, 10, 50, 10] := .file rfl (by decide) rfl FileTree.read_twoRows
  have hdir : (forOne .addDir 1).TakesIn .twoRows (.bare "a" 1 .master none)
      [105, 100, 10, 49, 10, 50, 10] :=
    .dir rfl (by decide) Nat.one_pos (congrArg Prod.fst (FileTree.inputFiles_single _))
      FileTree.read_twoRows
  have hreplies : ∀ request,
      (World.replying onlyFirstRow).mayReply request (onlyFirstRow request) := fun _ => rfl
  refine (submitAlike_of_takesIn hplain hfile hdir).2 onlyFirstRow ?_ ?_ _ _
    (mayLeave_run hreplies _ _) (mayLeave_run hreplies _ _)
  · decide
  · decide

end ClusterCommand

end IndexFleet
