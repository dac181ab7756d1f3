import IndexFleet.ClusterCommand
import IndexFleet.Source
import IndexFleet.Source.Listing
import IndexFleet.Target

namespace IndexFleet

structure Wave where
  notes : Log
  commands : List Command
  deriving Repr, DecidableEq, Inhabited

inductive PlanStep
  | note (entry : Entry)
  | wave (wave : Wave)
  deriving Repr, DecidableEq, Inhabited

structure Plan where
  steps : List PlanStep
  outcome : Except Failure Unit
  deriving Repr, Inhabited

namespace Plan

def done : Plan := ⟨[], .ok ()⟩

def fail (failure : Failure) : Plan := ⟨[], .error failure⟩

def notes (log : Log) : Plan := ⟨log.map .note, .ok ()⟩

def wave (wave : Wave) : Plan := ⟨[.wave wave], .ok ()⟩

-- One plan after another. A plan that fails is the last one.
def andThen (first second : Plan) : Plan :=
  match first.outcome with
  | .ok () => ⟨first.steps ++ second.steps, second.outcome⟩
  | .error _ => first

@[simp] theorem done_andThen (plan : Plan) : done.andThen plan = plan := by
  simp [done, andThen]

@[simp] theorem andThen_done (plan : Plan) : plan.andThen done = plan := by
  cases plan with
  | mk steps outcome => cases outcome <;> simp [andThen, done]

@[simp] theorem fail_andThen (failure : Failure) (plan : Plan) :
    (fail failure).andThen plan = fail failure := rfl

theorem andThen_assoc (first second third : Plan) :
    (first.andThen second).andThen third = first.andThen (second.andThen third) := by
  cases hf : first.outcome with
  | error failure => simp [andThen, hf]
  | ok =>
    cases hs : second.outcome with
    | error failure => simp [andThen, hf, hs]
    | ok => simp [andThen, hf, hs]

def sequence (plans : List Plan) : Plan := plans.foldr andThen done

@[simp] theorem sequence_nil : sequence [] = done := rfl

@[simp] theorem sequence_cons (plan : Plan) (plans : List Plan) :
    sequence (plan :: plans) = plan.andThen (sequence plans) := rfl

theorem sequence_append (plans more : List Plan) :
    sequence (plans ++ more) = (sequence plans).andThen (sequence more) := by
  induction plans with
  | nil => simp
  | cons plan plans ih => simp [ih, andThen_assoc]

def attempt {α : Type} (found : Except Failure α × Log) (next : α → Plan) : Plan :=
  (notes found.2).andThen
    (match found.1 with
    | .ok value => next value
    | .error failure => fail failure)

end Plan

structure Targets where
  nodes : List Node
  nonempty : 0 < nodes.length

namespace Targets

def ofList? (nodes : List Node) : Option Targets :=
  if h : 0 < nodes.length then some ⟨nodes, h⟩ else none

def count (targets : Targets) : Nat := targets.nodes.length

def turn (targets : Targets) (index : Nat) : Node :=
  targets.nodes.get ⟨index % targets.nodes.length, Nat.mod_lt _ targets.nonempty⟩

end Targets

namespace ClusterCommand

def commandFor (command : ClusterCommand) (node : Node) (kind : CommandKind)
    (argument : Option String) : Except Failure Command :=
  Command.create command.settings.timeouts node.host node.port kind.name argument

def createAll : List (Except Failure Command) → List Command × Except Failure Unit
  | [] => ([], .ok ())
  | .error failure :: _ => ([], .error failure)
  | .ok command :: rest =>
      let (commands, outcome) := createAll rest
      (command :: commands, outcome)

-- A wave of the same command for every target. None of them runs unless all can be made.
def everywhere (command : ClusterCommand) (targets : Targets) (notes : Log) (kind : CommandKind)
    (argument : Option String) : Plan :=
  match createAll (targets.nodes.map (command.commandFor · kind argument)) with
  | (commands, .ok ()) => .wave ⟨notes, commands⟩
  | (_, .error failure) => (Plan.notes notes).andThen (.fail failure)

-- What comes of filling a wave: what is told, the uploads, whether the source came to its end, and
-- how far it has been read.
structure Filling where
  notes : Log
  commands : List Command
  exhausted : Except Failure Bool
  source : Source
  index : Nat
  deriving Inhabited

-- Fills some slots of a wave with uploads, each of the next chunk of a source to the target whose
-- turn it is. The chunks are counted along all waves of the source.
def fillWave (command : ClusterCommand) (targets : Targets) : Nat → Source → Nat → Filling
  | 0, source, index => ⟨[], [], .ok false, source, index⟩
  | slots + 1, source, index =>
      let (chunk, told, rest) := source.readChunk command.settings.maxLinesPerChunk
      match chunk with
      | .error failure => ⟨told, [], .error failure, rest, index⟩
      | .ok none => ⟨told, [], .ok true, rest, index⟩
      | .ok (some chunk) =>
          match command.commandFor (targets.turn index) .addData (some chunk) with
          | .error failure => ⟨told, [], .error failure, rest, index + 1⟩
          | .ok upload =>
              let filling := fillWave command targets slots rest (index + 1)
              { filling with
                notes := told ++ filling.notes
                commands := upload :: filling.commands }

theorem fillWave_of_chunk {command : ClusterCommand} {targets : Targets} {slots index : Nat}
    {source : Source} {chunk : String} {upload : Command}
    (hchunk : (source.readChunk command.settings.maxLinesPerChunk).1 = .ok (some chunk))
    (hupload : command.commandFor (targets.turn index) .addData (some chunk) = .ok upload) :
    command.fillWave targets (slots + 1) source index =
      { command.fillWave targets slots
          (source.readChunk command.settings.maxLinesPerChunk).2.2 (index + 1) with
        notes := (source.readChunk command.settings.maxLinesPerChunk).2.1 ++
          (command.fillWave targets slots
            (source.readChunk command.settings.maxLinesPerChunk).2.2 (index + 1)).notes
        commands := upload ::
          (command.fillWave targets slots
            (source.readChunk command.settings.maxLinesPerChunk).2.2 (index + 1)).commands } := by
  simp only [fillWave, hchunk, hupload]

theorem exists_chunk_of_fillWave {command : ClusterCommand} {targets : Targets}
    {slots index : Nat} {source : Source}
    (hfilled : (command.fillWave targets (slots + 1) source index).exhausted = .ok false) :
    ∃ chunk upload,
      (source.readChunk command.settings.maxLinesPerChunk).1 = .ok (some chunk) ∧
        command.commandFor (targets.turn index) .addData (some chunk) = .ok upload := by
  cases hchunk : (source.readChunk command.settings.maxLinesPerChunk).1 with
  | error failure => simp [fillWave, hchunk] at hfilled
  | ok chunk? =>
      cases chunk? with
      | none => simp [fillWave, hchunk] at hfilled
      | some chunk =>
          cases hupload : command.commandFor (targets.turn index) .addData (some chunk) with
          | error failure => simp [fillWave, hchunk, hupload] at hfilled
          | ok upload => exact ⟨chunk, upload, rfl, hupload⟩

theorem length_fillWave_le {command : ClusterCommand} {targets : Targets} {slots index : Nat}
    {source : Source}
    (hfilled : (command.fillWave targets slots source index).exhausted = .ok false) :
    (command.fillWave targets slots source index).source.rows.length ≤ source.rows.length := by
  induction slots generalizing source index with
  | zero => exact Nat.le_refl _
  | succ slots ih =>
      obtain ⟨chunk, upload, hchunk, hupload⟩ := exists_chunk_of_fillWave hfilled
      rw [fillWave_of_chunk hchunk hupload] at hfilled ⊢
      exact Nat.le_of_lt (Nat.lt_of_le_of_lt (ih hfilled) (source.length_readChunk_lt hchunk))

-- A wave that is full has taken rows, since there is room for an upload in every wave.
theorem length_fillWave_lt {command : ClusterCommand} {targets : Targets} {slots index : Nat}
    {source : Source} (hslots : 0 < slots)
    (hfilled : (command.fillWave targets slots source index).exhausted = .ok false) :
    (command.fillWave targets slots source index).source.rows.length < source.rows.length := by
  cases slots with
  | zero => exact absurd hslots (Nat.lt_irrefl 0)
  | succ slots =>
      obtain ⟨chunk, upload, hchunk, hupload⟩ := exists_chunk_of_fillWave hfilled
      rw [fillWave_of_chunk hchunk hupload] at hfilled ⊢
      exact Nat.lt_of_le_of_lt (length_fillWave_le hfilled) (source.length_readChunk_lt hchunk)

-- Fills one wave after the other until the source is exhausted. All uploads of a wave come to their
-- ends before it counts whether the wave could be filled.
def uploadWaves (command : ClusterCommand) (targets : Targets) (path : String) (width : Nat)
    (hwidth : 0 < width) (source : Source) (index : Nat) : Plan :=
  let filling := command.fillWave targets width source index
  let wave : Plan := .wave ⟨filling.notes, filling.commands⟩
  match _ : filling.exhausted with
  | .error failure => wave.andThen (.fail failure)
  | .ok true => wave.andThen (.notes [.info s!"{path}: {filling.index} chunk(s) sent"])
  | .ok false =>
      wave.andThen (uploadWaves command targets path width hwidth filling.source filling.index)
termination_by source.rows.length
decreasing_by exact length_fillWave_lt hwidth ‹_›

def addSource (command : ClusterCommand) (targets : Targets) (path : String) (source : Source) :
    Plan :=
  let width := command.settings.uploadsPerWave targets.count
  (Plan.notes
    [.info s!"adding {path} to {targets.count} node(s), {width} upload(s) per wave"]).andThen
    (command.uploadWaves targets path width (command.settings.uploadsPerWave_pos _) source 0)

-- Deletes the documents of one row after the other everywhere. A row without id is passed over.
def deleteRows (command : ClusterCommand) (targets : Targets) (path : String) (source : Source)
    (deleted : Nat) : Plan :=
  match hrow : source.readRow with
  | (.error failure, told, _) => (Plan.notes told).andThen (.fail failure)
  | (.ok none, told, _) => .notes (told ++ [.info s!"{path}: {deleted} row(s) deleted"])
  | (.ok (some row), told, rest) =>
      let id := Text.firstField '\t' row
      if id.isEmpty then
        (Plan.notes (told ++ [.warn s!"skipping row without {source.idColumn}: {row}"])).andThen
          (deleteRows command targets path rest deleted)
      else
        (command.everywhere targets told .delete (some s!"{source.idColumn}:{id}")).andThen
          (deleteRows command targets path rest (deleted + 1))
termination_by source.rows.length
decreasing_by all_goals exact Source.length_readRow_lt hrow

def deleteSource (command : ClusterCommand) (targets : Targets) (path : String)
    (source : Source) : Plan :=
  (Plan.notes [.info s!"deleting rows of {path} by {source.idColumn}"]).andThen
    (command.deleteRows targets path source 0)

def addFile (command : ClusterCommand) (tree : FileTree) (targets : Targets) (path : String) :
    Plan :=
  Plan.attempt (Source.ofFile tree path) (command.addSource targets path)

def deleteFile (command : ClusterCommand) (tree : FileTree) (targets : Targets) (path : String) :
    Plan :=
  Plan.attempt (Source.ofFile tree path) (command.deleteSource targets path)

def forSources (command : ClusterCommand) (tree : FileTree) (each : String → Plan) : Plan :=
  Plan.attempt (tree.inputFiles (command.argument.getD "")) fun paths =>
    Plan.sequence (paths.map each)

def planFor (command : ClusterCommand) (tree : FileTree) (targets : Targets) : Plan :=
  match command.kind with
  | .uniform kind => command.everywhere targets [] kind command.argument
  | .addDir => command.forSources tree (command.addFile tree targets)
  | .updateDir => command.forSources tree fun path =>
      (command.deleteFile tree targets path).andThen (command.addFile tree targets path)
  | .batchDelete => command.forSources tree (command.deleteFile tree targets)

def plan (command : ClusterCommand) (tree : FileTree) : Plan :=
  match command.database.targets command.target with
  | .error fault => .fail fault.failure
  | .ok nodes =>
      match Targets.ofList? nodes with
      | none => .fail (TargetFault.noNodes command.target).failure
      | some targets =>
          (Plan.notes [.info s!"{command.title} resolved to {targets.count} node(s)"]).andThen
            (command.planFor tree targets)

end ClusterCommand

end IndexFleet
