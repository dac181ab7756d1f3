import IndexFleet.Proofs.Bulk.Reading
import Mathlib.Data.Int.CardIntervalMod

namespace IndexFleet

def Node.upload (node : Node) (body : String) : Request :=
  ⟨node.host, node.port, .post, Wire.rowsPath, some Wire.rowsType, body⟩

def Node.chunkUpload (node : Node) (header : String) (chunk : List String) : Request :=
  node.upload (header ++ "\n" ++ String.join (chunk.map (· ++ "\n")))

def Node.rowUpload (node : Node) (header row : String) : Request :=
  node.upload (header ++ "\n" ++ row)

namespace Targets

variable {targets : Targets}

theorem mod_lt (targets : Targets) (index : Nat) :
    index % targets.nodes.length < targets.nodes.length :=
  Nat.mod_lt index targets.nonempty

def positions (targets : Targets) (count : Nat) : List (Fin targets.nodes.length) :=
  (List.range count).map fun index => ⟨index % targets.nodes.length, targets.mod_lt index⟩

theorem count_positions (targets : Targets) (count : Nat) (position : Fin targets.nodes.length) :
    (targets.positions count).count position =
      Nat.count (· % targets.nodes.length = position) count := by
  induction count with
  | zero => rfl
  | succ count ih =>
      rw [positions, List.range_succ, List.map_append, List.count_append, ← positions, ih,
        Nat.count_succ, List.map_singleton, List.count_singleton]
      simp only [beq_iff_eq, Fin.ext_iff]

-- Those who take turns get the same number of turns, but for one.
theorem count_positions_le (targets : Targets) (count : Nat)
    (first second : Fin targets.nodes.length) :
    (targets.positions count).count first ≤ (targets.positions count).count second + 1 := by
  have hcount : ∀ position : Fin targets.nodes.length, (targets.positions count).count position =
      count / targets.nodes.length + if position < count % targets.nodes.length then 1 else 0 := by
    intro position
    have hshare := Nat.count_modEq_card count targets.nonempty position
    simp only [Nat.ModEq, Nat.mod_eq_of_lt position.isLt] at hshare
    exact (targets.count_positions count position).trans hshare
  rw [hcount first, hcount second]
  split <;> split <;> omega

end Targets

-- How the rows below a header are distributed in waves: they are cut into chunks, and the chunks
-- go to the targets in turn.
structure ClusterCommand.Distributes (command : ClusterCommand) (targets : Targets)
    (header : String) (rows : List String) (chunks : List (List String)) (waves : List WaveRun) :
    Prop where
  rows_eq : chunks.flatten = rows
  chunk_count : chunks.length = (rows.length + command.settings.maxLinesPerChunk - 1) /
    command.settings.maxLinesPerChunk
  full : ∀ index (h : index + 1 < chunks.length),
    chunks[index].length = command.settings.maxLinesPerChunk
  not_empty : ∀ chunk ∈ chunks, chunk ≠ []
  length_le : ∀ chunk ∈ chunks, chunk.length ≤ command.settings.maxLinesPerChunk
  wave_count : waves.length =
    chunks.length / command.settings.uploadsPerWave targets.count + 1
  -- each chunk is sent once, and nothing else is
  requests : List.Forall₂ (fun (chunk : List String × Nat) (call : Request × Reply) =>
      ∃ node, targets.nodes[chunk.2 % targets.nodes.length]? = some node ∧
        call.1 = node.chunkUpload header chunk.1)
    chunks.zipIdx (waves.flatten.flatMap (·.transcript.calls))
  -- the wave of each chunk and its place there
  placed : ∀ index (h : index < chunks.length), ∃ (node : Node) (one : CommandRun),
    targets.nodes[index % targets.nodes.length]? = some node ∧
    waves[index / command.settings.uploadsPerWave targets.count]?.bind
      (·[index % command.settings.uploadsPerWave targets.count]?) = some one ∧
    one.transcript.calls.map (·.1) = [node.chunkUpload header chunks[index]]
  -- the positions of those that the chunks are sent to
  balanced : ∃ positions : List (Fin targets.nodes.length),
    (waves.flatten.flatMap (·.transcript.calls)).map (fun call => (call.1.host, call.1.port)) =
      positions.map (fun position =>
        ((targets.nodes.get position).host, (targets.nodes.get position).port)) ∧
    positions.map (·.val) = (List.range chunks.length).map (· % targets.nodes.length) ∧
    ∀ first second, positions.count first ≤ positions.count second + 1

namespace ClusterCommand

variable {command : ClusterCommand} {tree : FileTree} {targets : Targets} {header : String}
  {rows : List String} {waves : List WaveRun}

def chunkCommand (command : ClusterCommand) (targets : Targets) (header : String)
    (chunk : List String × Nat) : Command :=
  command.commandAt (targets.turn chunk.2) .addData (some (Source.chunkText header chunk.1))

theorem sourceWaves_eq (command : ClusterCommand) (targets : Targets) (header : String)
    (rows : List String) :
    command.sourceWaves targets header rows =
      (cutOpen (command.settings.uploadsPerWave targets.count)
        (pieces command.settings.maxLinesPerChunk rows).zipIdx).map
          (List.map (command.chunkCommand targets header)) := by
  rw [sourceWaves, List.zipIdx_map, cutOpen_map, List.map_map]
  refine List.map_congr_left fun wave _ => ?_
  rw [Function.comp_apply, uploadsOf, List.map_map]
  rfl

theorem flatten_sourceWaves_eq (command : ClusterCommand) (targets : Targets) (header : String)
    (rows : List String) :
    (command.sourceWaves targets header rows).flatten =
      (pieces command.settings.maxLinesPerChunk rows).zipIdx.map
        (command.chunkCommand targets header) := by
  rw [flatten_sourceWaves, uploadsOf, List.zipIdx_map, List.map_map]
  rfl

-- Whatever becomes of a source, its commands are those of its chunks in turn.
theorem commands_flatten
    (hwaves : waves.map (·.commands) = command.sourceWaves targets header rows) :
    waves.flatten.map (·.command) = (pieces command.settings.maxLinesPerChunk rows).zipIdx.map
      (command.chunkCommand targets header) := by
  have hflat : waves.flatten.map (·.command) = (waves.map (·.commands)).flatten :=
    List.map_flatten
  rw [hflat, hwaves, flatten_sourceWaves_eq]

theorem exists_placed (hwaves : waves.map (·.commands) = command.sourceWaves targets header rows)
    {index : Nat} (hindex : index < (pieces command.settings.maxLinesPerChunk rows).length) :
    ∃ one : CommandRun,
      waves[index / command.settings.uploadsPerWave targets.count]?.bind
        (·[index % command.settings.uploadsPerWave targets.count]?) = some one ∧
      one.command = command.chunkCommand targets header
        ((pieces command.settings.maxLinesPerChunk rows)[index], index) := by
  have hwidth := command.settings.uploadsPerWave_pos targets.count
  have hplace := bind_getElem?_map (·.command) waves
    (index / command.settings.uploadsPerWave targets.count)
    (index % command.settings.uploadsPerWave targets.count)
  have hsame : waves.map (List.map (·.command)) = command.sourceWaves targets header rows := hwaves
  rw [hsame, sourceWaves_eq, bind_getElem?_map,
    getElem?_cutOpen hwidth (by rwa [List.length_zipIdx])] at hplace
  simp only [List.getElem?_zipIdx, List.getElem?_eq_getElem hindex, Option.map_some,
    Nat.zero_add] at hplace
  obtain ⟨one, hone, hcommand⟩ := Option.map_eq_some_iff.mp hplace.symm
  exact ⟨one, hone, hcommand⟩

theorem calls_of_accepting {one : CommandRun} {chunk : List String × Nat}
    (hcommand : one.command = command.chunkCommand targets header chunk)
    (hleave : Dialogue.MayLeave .accepting (one.command.dialogue tree) one.transcript) :
    one.transcript.calls.map (·.1) = [(targets.turn chunk.2).chunkUpload header chunk.1] := by
  rw [hcommand, Command.dialogue_addData rfl rfl] at hleave
  obtain ⟨reply, answer, htranscript⟩ := Client.mayLeave_pushWithFallback_accepting hleave
  rw [htranscript, List.map_singleton, Source.chunkText_eq]
  rfl

-- Where each command makes one call, these are all calls.
theorem requests_of_single {α : Type} {runs : List CommandRun} {items : List α}
    {make : α → Command} {request : α → Request}
    (hcommands : runs.map (·.command) = items.map make)
    (hsingle : ∀ one ∈ runs, ∀ item, one.command = make item →
      one.transcript.calls.map (·.1) = [request item]) :
    (runs.flatMap (·.transcript.calls)).map (·.1) = items.map request := by
  have hcalls : List.Forall₂ (fun item (one : CommandRun) =>
      one.transcript.calls.map (·.1) = [request item]) items runs :=
    forall₂_of_map_eq hcommands fun item _ one hone => hsingle one hone item
  clear hcommands hsingle
  induction hcalls with
  | nil => rfl
  | cons hone _ ih =>
      rw [List.flatMap_cons, List.map_append, hone, ih]
      rfl

theorem requests_of_accepting {runs : List CommandRun} {chunks : List (List String × Nat)}
    (hcommands : runs.map (·.command) = chunks.map (command.chunkCommand targets header))
    (hcomplete : ∀ one ∈ runs,
      Dialogue.MayLeave .accepting (one.command.dialogue tree) one.transcript) :
    (runs.flatMap (·.transcript.calls)).map (·.1) =
      chunks.map fun chunk => (targets.turn chunk.2).chunkUpload header chunk.1 :=
  requests_of_single hcommands fun one hone _ hcommand =>
    calls_of_accepting hcommand (hcomplete one hone)

theorem requests_of_waves
    (hwaves : waves.map (·.commands) = command.sourceWaves targets header rows)
    (hcomplete : ∀ wave ∈ waves, ∀ one ∈ wave,
      Dialogue.MayLeave .accepting (one.command.dialogue tree) one.transcript) :
    (waves.flatten.flatMap (·.transcript.calls)).map (·.1) =
      (pieces command.settings.maxLinesPerChunk rows).zipIdx.map
        fun chunk => (targets.turn chunk.2).chunkUpload header chunk.1 :=
  requests_of_accepting (commands_flatten hwaves) (List.forall_mem_flatten.mpr hcomplete)

theorem distributes_of_accepting (hlines : 0 < command.settings.maxLinesPerChunk)
    (hwaves : waves.map (·.commands) = command.sourceWaves targets header rows)
    (hcomplete : ∀ wave ∈ waves, ∀ one ∈ wave,
      Dialogue.MayLeave .accepting (one.command.dialogue tree) one.transcript) :
    command.Distributes targets header rows (pieces command.settings.maxLinesPerChunk rows)
      waves where
  rows_eq := flatten_pieces hlines rows
  chunk_count := length_pieces rows
  full index hindex := by
    rw [length_pieces] at hindex
    simp only [pieces, List.getElem_map, List.getElem_range]
    exact length_piece hlines hindex
  not_empty chunk hchunk := by
    obtain ⟨index, hindex, rfl⟩ := List.mem_map.mp hchunk
    exact piece_ne_nil hlines (List.mem_range.mp hindex)
  length_le chunk hchunk := by
    obtain ⟨index, _, rfl⟩ := List.mem_map.mp hchunk
    exact length_piece_le rows index
  wave_count := by
    have hlength := congrArg List.length hwaves
    rwa [sourceWaves_eq, List.length_map, List.length_map, length_cutOpen,
      List.length_zipIdx] at hlength
  requests := by
    have hrequests := requests_of_waves hwaves hcomplete
    rw [← List.forall₂_eq_eq_eq, List.forall₂_map_left_iff, List.forall₂_map_right_iff] at hrequests
    exact hrequests.flip.imp fun chunk _ hsame => ⟨_, targets.getElem?_mod chunk.2, hsame⟩
  placed index hindex := by
    obtain ⟨one, hone, hcommand⟩ := exists_placed hwaves hindex
    obtain ⟨wave, hwave, hmem⟩ := Option.bind_eq_some_iff.mp hone
    exact ⟨_, one, targets.getElem?_mod index, hone, calls_of_accepting hcommand
      (hcomplete wave (List.mem_of_getElem? hwave) one (List.mem_of_getElem? hmem))⟩
  balanced := by
    have hrequests := requests_of_waves hwaves hcomplete
    have hindices := List.zipIdx_map_snd 0 (pieces command.settings.maxLinesPerChunk rows)
    rw [← List.range_eq_range'] at hindices
    refine ⟨targets.positions _, ?_, List.map_map, targets.count_positions_le _⟩
    calc (waves.flatten.flatMap (·.transcript.calls)).map
          (fun call => (call.1.host, call.1.port))
        = ((waves.flatten.flatMap (·.transcript.calls)).map (·.1)).map
            (fun request => (request.host, request.port)) := by
          rw [List.map_map]
          rfl
      _ = ((pieces command.settings.maxLinesPerChunk rows).zipIdx.map (·.2)).map
            (fun index => ((targets.turn index).host, (targets.turn index).port)) := by
          rw [hrequests, List.map_map, List.map_map]
          rfl
      _ = _ := by
          rw [hindices, Targets.positions, List.map_map]
          rfl

-- What is made one group after the other comes in groups.
theorem exists_groups {α β γ : Type} {made : List α} {name : α → β} {items : List γ}
    {group : γ → List β} (hmade : made.map name = items.flatMap group) :
    ∃ groups, made = groups.flatten ∧
      List.Forall₂ (fun item part => part.map name = group item) items groups := by
  induction items generalizing made with
  | nil => exact ⟨[], List.map_eq_nil_iff.mp hmade, .nil⟩
  | cons item items ih =>
      obtain ⟨first, rest, rfl, hfirst, hrest⟩ := List.map_eq_append_iff.mp hmade
      obtain ⟨groups, rfl, hgroups⟩ := ih hrest
      exact ⟨first :: groups, rfl, .cons hfirst hgroups⟩

-- Everything that addDir should do with its sources: it succeeds, and each source in turn is
-- distributed in waves of its own.
def DistributesAll (command : ClusterCommand) (targets : Targets) (contents : List Table)
    (run : Run) : Prop :=
  run.result = .ok () ∧ ∃ groups : List (List WaveRun), run.waves = groups.flatten ∧
    List.Forall₂ (fun content waves => ∃ chunks,
      command.Distributes targets content.1 content.2 chunks waves) contents groups

theorem distributesAll_of_accepting {contents : List Table}
    (hready : command.IsReady tree targets contents) :
    (∀ run, command.MayLeave tree .accepting run → command.DistributesAll targets contents run) ∧
      ∀ network : Network, (∀ request, (network request).isAccepting = true) →
        command.DistributesAll targets contents (command.run tree network) := by
  have hall : ∀ run, command.MayLeave tree .accepting run →
      command.DistributesAll targets contents run := by
    intro run hrun
    obtain ⟨hcommands, hresult⟩ := IsBulk.of_accepting (.inl hready.kind) hready.makes_plan hrun
    obtain ⟨groups, hgroups, hparts⟩ := exists_groups hcommands
    refine ⟨hresult, groups, hgroups, ?_⟩
    have hcomplete : ∀ waves ∈ groups, ∀ wave ∈ waves, ∀ one ∈ wave,
        Dialogue.MayLeave .accepting (one.command.dialogue tree) one.transcript := by
      intro waves hwaves wave hwave
      exact hrun.complete id wave (hgroups ▸ List.mem_flatten_of_mem hwaves hwave)
    have hboth := (List.forall₂_and_left groups contents).mpr ⟨hcomplete, hparts.flip⟩
    exact hboth.flip.imp fun content waves hwaves =>
      ⟨_, distributes_of_accepting hready.lines hwaves.2 hwaves.1⟩
  exact ⟨hall, fun network haccepting => hall _ (mayLeave_run haccepting command tree)⟩

theorem distributesAll_namedRows :
    (forPair .addDir (some "rows")).DistributesAll .pair [("id\tname", ["1\tx", "2\ty"])]
      ((forPair .addDir (some "rows")).run (.single ⟨FileTree.namedRows, none⟩)
        fun _ => .answered 200 []) :=
  (distributesAll_of_accepting isReady_namedRows).2 _ fun _ => rfl

end ClusterCommand

end IndexFleet
