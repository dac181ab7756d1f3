import IndexFleet.Proofs.Database.Tables
import IndexFleet.Proofs.Plan
import IndexFleet.Proofs.Source

namespace IndexFleet

variable {command : ClusterCommand} {targets : Targets}

def Targets.pair : Targets := ⟨[.bare "a" 1 .master none, .bare "b" 2 .slave none], by decide⟩

-- The targets take turns.
theorem Targets.getElem?_mod (targets : Targets) (index : Nat) :
    targets.nodes[index % targets.nodes.length]? = some (targets.turn index) :=
  List.getElem?_eq_getElem (Nat.mod_lt index targets.nonempty)

namespace ClusterCommand

def forEach (command : ClusterCommand) (targets : Targets) (kind : CommandKind)
    (argument : Option String) : List Command :=
  targets.nodes.map (command.commandAt · kind argument)

def uploadsOf (command : ClusterCommand) (targets : Targets) (chunks : List (String × Nat)) :
    List Command :=
  chunks.map fun chunk => command.commandAt (targets.turn chunk.2) .addData (some chunk.1)

-- The waves that upload the rows of a source: its chunks in turn, cut into waves.
def sourceWaves (command : ClusterCommand) (targets : Targets) (header : String)
    (rows : List String) : List (List Command) :=
  let texts := (pieces command.settings.maxLinesPerChunk rows).map (Source.chunkText header)
  (cutOpen (command.settings.uploadsPerWave targets.count) texts.zipIdx).map
    (command.uploadsOf targets)

-- Cut into waves or not, the uploads are those of the chunks in turn.
theorem flatten_sourceWaves (command : ClusterCommand) (targets : Targets) (header : String)
    (rows : List String) :
    (command.sourceWaves targets header rows).flatten = command.uploadsOf targets
      ((pieces command.settings.maxLinesPerChunk rows).map (Source.chunkText header)).zipIdx := by
  refine List.map_flatten.symm.trans (congrArg (command.uploadsOf targets) ?_)
  exact flatten_cutOpen (command.settings.uploadsPerWave_pos _) _

-- The waves that delete the documents of a source: one for each row that has an id.
def rowWaves (command : ClusterCommand) (targets : Targets) (source : Source) :
    List (List Command) :=
  (Source.idsOf source.texts).map fun id =>
    command.forEach targets .delete (some s!"{source.idColumn}:{id}")

theorem everywhere_eq {kind : CommandKind} {argument : Option String} (notes : Log)
    (hgiven : kind.needsArgument = true → (givenArgument argument).isSome = true) :
    command.everywhere targets notes kind argument =
      .wave ⟨notes, command.forEach targets kind (givenArgument argument)⟩ := by
  have hmake : ∀ node ∈ targets.nodes, command.commandFor node kind argument =
      .ok (command.commandAt node kind (givenArgument argument)) := by
    intro node _
    rw [commandFor_eq]
    cases hneeds : kind.needsArgument with
    | false => simp
    | true => simp [Option.isSome_iff_ne_none.mp (hgiven hneeds)]
  simp only [everywhere, createAll_map hmake, forEach]

theorem everywhere_of_given {kind : CommandKind} {argument : Option String} (notes : Log)
    (hgiven : kind.needsArgument = true → (givenArgument argument).isSome = true) :
    (command.everywhere targets notes kind argument).Makes
      [command.forEach targets kind (givenArgument argument)] := by
  rw [everywhere_eq notes hgiven]
  exact Plan.makes_wave _

theorem everywhere_of_missing {kind : CommandKind} {argument : Option String} (notes : Log)
    (hneeds : kind.needsArgument = true) (hmissing : givenArgument argument = none) :
    (command.everywhere targets notes kind argument).Stops [] (Command.missingArgument kind) := by
  obtain ⟨nodes, hnodes⟩ := targets
  cases nodes with
  | nil => simp at hnodes
  | cons node nodes =>
      simp only [everywhere, List.map_cons, commandFor_eq, hneeds, hmissing, Option.isNone_none,
        Bool.and_self, ite_true, createAll]
      exact (Plan.makes_notes notes).andThen_stops (Plan.stops_fail _)

section Uploads

variable {source : Source} {texts : List String} {failure : Option Failure} {slots index : Nat}

theorem commands_fillWave
    (hchunks : Source.Chunks command.settings.maxLinesPerChunk source texts failure) :
    (command.fillWave targets slots source index).commands =
      command.uploadsOf targets ((texts.take slots).zipIdx index) := by
  induction slots generalizing source texts index with
  | zero => rfl
  | succ slots ih =>
      cases hchunks with
      | ended hread => simp only [fillWave, hread, List.take_nil, List.zipIdx_nil]; rfl
      | brokeOff hread => simp only [fillWave, hread, List.take_nil, List.zipIdx_nil]; rfl
      | chunk hread hrest =>
          have hupload := command.commandFor_of_ne_empty (targets.turn index) .addData
            (Source.ne_empty_of_readChunk hread)
          rw [fillWave_of_chunk hread hupload, ih hrest, List.take_succ_cons, List.zipIdx_cons]
          rfl

-- A wave with more room than there are chunks comes to the end of the source.
theorem exhausted_fillWave
    (hchunks : Source.Chunks command.settings.maxLinesPerChunk source texts failure)
    (hfew : texts.length < slots) :
    (command.fillWave targets slots source index).exhausted =
      failure.elim (.ok true) .error := by
  induction slots generalizing source texts index with
  | zero => exact absurd hfew (Nat.not_lt_zero _)
  | succ slots ih =>
      cases hchunks with
      | ended hread => simp only [fillWave, hread]; rfl
      | brokeOff hread => simp only [fillWave, hread]; rfl
      | chunk hread hrest =>
          have hupload := command.commandFor_of_ne_empty (targets.turn index) .addData
            (Source.ne_empty_of_readChunk hread)
          rw [fillWave_of_chunk hread hupload]
          exact ih hrest (Nat.lt_of_succ_lt_succ hfew)

-- A wave that is full leaves the other chunks to the next one, which counts on.
theorem fillWave_of_le
    (hchunks : Source.Chunks command.settings.maxLinesPerChunk source texts failure)
    (hmany : slots ≤ texts.length) :
    let filling := command.fillWave targets slots source index
    filling.exhausted = .ok false ∧ filling.index = index + slots ∧
      Source.Chunks command.settings.maxLinesPerChunk filling.source (texts.drop slots)
        failure := by
  induction slots generalizing source texts index with
  | zero => exact ⟨rfl, rfl, hchunks⟩
  | succ slots ih =>
      cases hchunks with
      | ended | brokeOff => exact absurd hmany (Nat.not_succ_le_zero _)
      | chunk hread hrest =>
          have hupload := command.commandFor_of_ne_empty (targets.turn index) .addData
            (Source.ne_empty_of_readChunk hread)
          obtain ⟨hfull, hindex, hleft⟩ := @ih _ _ (index + 1) hrest (Nat.le_of_succ_le_succ hmany)
          rw [fillWave_of_chunk hread hupload]
          exact ⟨hfull, hindex.trans (by omega), hleft⟩

section Unfold

variable {path : String} {width : Nat} {hwidth : 0 < width} {filling : Filling}

theorem uploadWaves_of_error {failure : Failure}
    (hfilled : command.fillWave targets width source index = filling)
    (hbroken : filling.exhausted = .error failure) :
    command.uploadWaves targets path width hwidth source index =
      (Plan.wave ⟨filling.notes, filling.commands⟩).andThen (.fail failure) := by
  subst hfilled
  rw [uploadWaves]
  split <;> simp_all

theorem uploadWaves_of_ended
    (hfilled : command.fillWave targets width source index = filling)
    (hended : filling.exhausted = .ok true) :
    command.uploadWaves targets path width hwidth source index =
      (Plan.wave ⟨filling.notes, filling.commands⟩).andThen
        (.notes [.info s!"{path}: {filling.index} chunk(s) sent"]) := by
  subst hfilled
  rw [uploadWaves]
  split <;> simp_all

theorem uploadWaves_of_full
    (hfilled : command.fillWave targets width source index = filling)
    (hfull : filling.exhausted = .ok false) :
    command.uploadWaves targets path width hwidth source index =
      (Plan.wave ⟨filling.notes, filling.commands⟩).andThen
        (command.uploadWaves targets path width hwidth filling.source filling.index) := by
  subst hfilled
  conv_lhs => rw [uploadWaves]
  split <;> simp_all

end Unfold

-- The loop over the waves of a source cuts its chunks into waves.
theorem ends_uploadWaves {path : String} {width : Nat} (hwidth : 0 < width)
    (hchunks : Source.Chunks command.settings.maxLinesPerChunk source texts failure) :
    (command.uploadWaves targets path width hwidth source index).Ends
      ((cutOpen width (texts.zipIdx index)).map (command.uploadsOf targets)) failure := by
  induction hlength : texts.length using Nat.strongRecOn generalizing source texts index with
  | ind length ih =>
      have hcommands := @commands_fillWave command targets source texts failure width index hchunks
      by_cases hfew : texts.length < width
      · have hended : (command.fillWave targets width source index).exhausted =
            failure.elim (.ok true) .error := exhausted_fillWave hchunks hfew
        rw [List.take_of_length_le (Nat.le_of_lt hfew)] at hcommands
        rw [cutOpen_of_lt (by rwa [List.length_zipIdx]), List.map_singleton, ← hcommands]
        cases failure with
        | none =>
            rw [uploadWaves_of_ended rfl hended]
            exact (Plan.makes_wave _).andThen (Plan.makes_notes _)
        | some failure =>
            rw [uploadWaves_of_error rfl hended]
            exact (Plan.makes_wave _).andThen_stops (Plan.stops_fail failure)
      · have hmany := Nat.le_of_not_lt hfew
        obtain ⟨hfull, hindex, hleft⟩ :=
          @fillWave_of_le command targets source texts failure width index hchunks hmany
        have hshorter : (texts.drop width).length < length := by rw [List.length_drop]; omega
        have hrest := @ih _ hshorter _ _ (index + width) hleft rfl
        rw [uploadWaves_of_full rfl hfull, hindex]
        have htaken : ((texts.take width).zipIdx index).length = width := by
          rw [List.length_zipIdx, List.length_take_of_le hmany]
        rw [cutOpen_of_le hwidth (by rwa [List.length_zipIdx]), zipIdx_take_append_drop hmany,
          List.take_left' htaken, List.drop_left' htaken, List.map_cons, ← hcommands]
        exact (Plan.makes_wave _).andThen_ends hrest

theorem ends_addSource (path : String) (source : Source) :
    (command.addSource targets path source).Ends
      (command.sourceWaves targets source.header
        (source.rowsInChunks command.settings.maxLinesPerChunk))
      (source.failureAt command.settings.maxLinesPerChunk) :=
  (Plan.makes_notes _).andThen_ends
    (ends_uploadWaves _ (source.chunks_pieces command.settings.maxLinesPerChunk))

-- The waves of a source depend on the settings of a command and on nothing else of it.
theorem fillWave_congr {other : ClusterCommand} (hsettings : command.settings = other.settings) :
    command.fillWave targets slots source index = other.fillWave targets slots source index := by
  have hmade : ∀ node argument, command.commandFor node .addData argument =
      other.commandFor node .addData argument := fun node argument => by
    rw [commandFor, commandFor, hsettings]
  induction slots generalizing source index with
  | zero => rfl
  | succ slots ih => simp only [fillWave, hsettings, hmade, ih]

theorem uploadWaves_congr {other : ClusterCommand} {path : String} {width : Nat}
    (hwidth : 0 < width) (hsettings : command.settings = other.settings) :
    command.uploadWaves targets path width hwidth source index =
      other.uploadWaves targets path width hwidth source index := by
  induction hlength : source.rows.length using Nat.strongRecOn generalizing source index with
  | ind length ih =>
      have hsame := @fillWave_congr command targets source width index other hsettings
      cases hexhausted : (other.fillWave targets width source index).exhausted with
      | error failure =>
          rw [uploadWaves_of_error hsame hexhausted, uploadWaves_of_error rfl hexhausted]
      | ok ended =>
          cases ended with
          | true => rw [uploadWaves_of_ended hsame hexhausted, uploadWaves_of_ended rfl hexhausted]
          | false =>
              have hshorter := length_fillWave_lt hwidth hexhausted
              rw [uploadWaves_of_full hsame hexhausted, uploadWaves_of_full rfl hexhausted,
                ih _ (hlength ▸ hshorter) rfl]

theorem addSource_congr {other : ClusterCommand} (path : String) (source : Source)
    (hsettings : command.settings = other.settings) :
    command.addSource targets path source = other.addSource targets path source := by
  obtain ⟨_, _, _, _, settings⟩ := command
  obtain ⟨_, _, _, _, same⟩ := other
  obtain rfl : settings = same := hsettings
  simp only [addSource]
  exact congrArg _ (uploadWaves_congr _ rfl)

theorem tells_fillWave {allowed : Entry → Prop} (hsource : source.Tells allowed) :
    (∀ entry ∈ (command.fillWave targets slots source index).notes, allowed entry) ∧
      (command.fillWave targets slots source index).source.Tells allowed := by
  induction slots generalizing source index with
  | zero => exact ⟨List.forall_mem_nil _, hsource⟩
  | succ slots ih =>
      obtain ⟨htold, hrest⟩ := hsource.readChunk command.settings.maxLinesPerChunk
      cases hread : (source.readChunk command.settings.maxLinesPerChunk).1 with
      | error failure =>
          simp only [fillWave, hread]
          exact ⟨htold, hrest⟩
      | ok found =>
          cases found with
          | none =>
              simp only [fillWave, hread]
              exact ⟨htold, hrest⟩
          | some text =>
              have hupload := command.commandFor_of_ne_empty (targets.turn index) .addData
                (Source.ne_empty_of_readChunk hread)
              rw [fillWave_of_chunk hread hupload]
              obtain ⟨hnotes, hleft⟩ := @ih _ (index + 1) hrest
              exact ⟨List.forall_mem_append.mpr ⟨htold, hnotes⟩, hleft⟩

theorem tells_uploadWaves {allowed : Entry → Prop} {path : String} {width : Nat}
    (hwidth : 0 < width) (hinfo : ∀ message, allowed (.info message))
    (hsource : source.Tells allowed) :
    (command.uploadWaves targets path width hwidth source index).Tells allowed := by
  induction hlength : source.rows.length using Nat.strongRecOn generalizing source index with
  | ind length ih =>
      obtain ⟨hnotes, hleft⟩ := @tells_fillWave command targets source width index _ hsource
      rw [uploadWaves]
      split
      case h_1 => exact (Plan.tells_wave hnotes).andThen (List.forall_mem_nil _)
      case h_2 =>
          refine (Plan.tells_wave hnotes).andThen (Plan.tells_notes ?_)
          exact List.forall_mem_singleton.mpr (hinfo _)
      case h_3 hfull =>
          have hshorter := length_fillWave_lt hwidth hfull
          exact (Plan.tells_wave hnotes).andThen (ih _ (hlength ▸ hshorter) hleft rfl)

-- The dispatcher tells of a source that it is taken in, and what is told of the source itself.
theorem tells_addSource {allowed : Entry → Prop} (path : String)
    (hinfo : ∀ message, allowed (.info message)) (hsource : source.Tells allowed) :
    (command.addSource targets path source).Tells allowed :=
  (Plan.tells_notes (List.forall_mem_singleton.mpr (hinfo _))).andThen
    (tells_uploadWaves _ hinfo hsource)

end Uploads

theorem query_ne_empty (idColumn id : String) : s!"{idColumn}:{id}" ≠ "" := by
  intro hempty
  have hlength := congrArg String.length hempty
  simp [toString] at hlength

-- What is planned for a single row: its documents are deleted, or it is told to have no id.
def rowPlan (command : ClusterCommand) (targets : Targets) (idColumn : String)
    (row : String × Log) : Plan :=
  if (Source.idOf row.1).isEmpty then
    .notes (row.2 ++ [.warn s!"skipping row without {idColumn}: {row.1}"])
  else .wave ⟨row.2, command.forEach targets .delete (some s!"{idColumn}:{Source.idOf row.1}")⟩

-- What is planned behind the last row, given how many have been deleted.
def rowsEnd (path : String) (source : Source) (deleted : Nat) : Plan :=
  match source.failureAt 1 with
  | none => .notes (source.tail ++ [.info s!"{path}: {deleted} row(s) deleted"])
  | some failure => (Plan.notes source.tail).andThen (.fail failure)

theorem everywhere_delete (idColumn id : String) (notes : Log) :
    command.everywhere targets notes .delete (some s!"{idColumn}:{id}") =
      .wave ⟨notes, command.forEach targets .delete (some s!"{idColumn}:{id}")⟩ := by
  have hgiven := givenArgument_of_ne_empty (query_ne_empty idColumn id)
  rw [everywhere_eq notes fun _ => by rw [hgiven]; rfl, hgiven]

theorem deleteRows_of_nil {path : String} {source : Source} {deleted : Nat}
    (hrows : source.rows = []) :
    command.deleteRows targets path source deleted = rowsEnd path source deleted := by
  have hrow := Source.readRow_of_nil hrows
  rw [deleteRows, rowsEnd]
  split
  case h_1 failure told rest hread =>
      rw [hrow] at hread
      cases hfailure : source.failureAt 1 with
      | none => rw [hfailure] at hread; cases hread
      | some failure => rw [hfailure] at hread; cases hread; rfl
  case h_2 told rest hread =>
      rw [hrow] at hread
      cases hfailure : source.failureAt 1 with
      | none => rw [hfailure] at hread; cases hread; rfl
      | some failure => rw [hfailure] at hread; cases hread
  case h_3 row told rest hread =>
      rw [hrow] at hread
      cases hfailure : source.failureAt 1 <;> rw [hfailure] at hread <;> cases hread

theorem rowPlan_of_unnamed {idColumn : String} {row : String × Log}
    (hid : (Source.idOf row.1).isEmpty = true) :
    command.rowPlan targets idColumn row =
      .notes (row.2 ++ [.warn s!"skipping row without {idColumn}: {row.1}"]) :=
  if_pos hid

theorem rowPlan_of_named {idColumn : String} {row : String × Log}
    (hid : (Source.idOf row.1).isEmpty = false) :
    command.rowPlan targets idColumn row =
      .wave ⟨row.2, command.forEach targets .delete
        (some s!"{idColumn}:{Source.idOf row.1}")⟩ :=
  if_neg (by simp [hid])

theorem deleteRows_of_cons {path : String} {source : Source} {deleted : Nat}
    {row : String × Log} {rows : List (String × Log)} (hrows : source.rows = row :: rows) :
    command.deleteRows targets path source deleted =
      (command.rowPlan targets source.idColumn row).andThen
        (command.deleteRows targets path { source with rows }
          (deleted + (Source.idsOf [row.1]).length)) := by
  have hrow := Source.readRow_of_cons hrows
  conv_lhs => rw [deleteRows]
  split
  case h_1 hread => cases hrow.symm.trans hread
  case h_2 hread => cases hrow.symm.trans hread
  case h_3 hread =>
      cases hrow.symm.trans hread
      have hfirst : Text.firstField '\t' row.1 = Source.idOf row.1 := Text.firstField_eq _ _
      rw [hfirst]
      cases hid : (Source.idOf row.1).isEmpty with
      | true =>
          rw [rowPlan_of_unnamed hid, Source.idsOf_cons_of_unnamed [] hid]
          exact if_pos hid
      | false =>
          rw [rowPlan_of_named hid, Source.idsOf_cons_of_named [] hid, ← everywhere_delete]
          exact if_neg (by simp [hid])

-- The loop over the rows of a source goes through what is planned for each of them.
theorem deleteRows_eq (path : String) (source : Source) (deleted : Nat) :
    command.deleteRows targets path source deleted =
      (Plan.sequence (source.rows.map (command.rowPlan targets source.idColumn))).andThen
        (rowsEnd path source (deleted + (Source.idsOf source.texts).length)) := by
  induction hrows : source.rows generalizing source deleted with
  | nil =>
      have htexts : source.texts = [] := by rw [Source.texts, hrows, List.map_nil]
      rw [deleteRows_of_nil hrows, htexts]
      exact (Plan.done_andThen _).symm
  | cons row rows ih =>
      have hrest := ih { source with rows } (deleted + (Source.idsOf [row.1]).length) rfl
      have hids : Source.idsOf source.texts =
          Source.idsOf [row.1] ++ Source.idsOf (rows.map (·.1)) := by
        rw [Source.texts, hrows, List.map_cons, Source.idsOf_cons]
      rw [deleteRows_of_cons hrows, hrest, List.map_cons, Plan.sequence_cons, Plan.andThen_assoc,
        hids, List.length_append, ← Nat.add_assoc]
      rfl

theorem deleteSource_congr {other : ClusterCommand} (path : String) (source : Source)
    (hsettings : command.settings = other.settings) :
    command.deleteSource targets path source = other.deleteSource targets path source := by
  have hmade : command.rowPlan targets source.idColumn = other.rowPlan targets source.idColumn :=
    funext fun row => by simp only [rowPlan, forEach, commandAt, hsettings]
  rw [deleteSource, deleteSource, deleteRows_eq, deleteRows_eq, hmade]

theorem makes_rowPlan (idColumn : String) (row : String × Log) :
    (command.rowPlan targets idColumn row).Makes ((Source.idsOf [row.1]).map fun id =>
      command.forEach targets .delete (some s!"{idColumn}:{id}")) := by
  cases hid : (Source.idOf row.1).isEmpty with
  | true =>
      rw [rowPlan_of_unnamed hid, Source.idsOf_cons_of_unnamed [] hid]
      exact Plan.makes_notes _
  | false =>
      rw [rowPlan_of_named hid, Source.idsOf_cons_of_named [] hid]
      exact Plan.makes_wave _

theorem ends_rowsEnd (path : String) (source : Source) (deleted : Nat) :
    (rowsEnd path source deleted).Ends [] (source.failureAt 1) := by
  unfold rowsEnd
  cases source.failureAt 1 with
  | none => exact Plan.makes_notes _
  | some failure => exact (Plan.makes_notes _).andThen_stops (Plan.stops_fail failure)

theorem flatMap_idsOf {α : Type} (make : String → α) (rows : List (String × Log)) :
    (rows.flatMap fun row => (Source.idsOf [row.1]).map make) =
      (Source.idsOf (rows.map (·.1))).map make := by
  induction rows with
  | nil => rfl
  | cons row rows ih =>
      rw [List.flatMap_cons, ih, List.map_cons, Source.idsOf_cons row.1 (rows.map (·.1)),
        List.map_append]

theorem ends_deleteSource (path : String) (source : Source) :
    (command.deleteSource targets path source).Ends (command.rowWaves targets source)
      (source.failureAt 1) := by
  have hrows := Plan.makes_sequence_map fun row (_ : row ∈ source.rows) =>
    @makes_rowPlan command targets source.idColumn row
  have hends := hrows.andThen_ends
    (ends_rowsEnd path source (0 + (Source.idsOf source.texts).length))
  rw [flatMap_idsOf, List.append_nil] at hends
  rw [deleteSource, deleteRows_eq]
  exact (Plan.makes_notes _).andThen_ends hends

-- A wave of commands of one kind, each with the argument that it needs, and so many at most.
structure IsWaveOf (kind : CommandKind) (limit : Nat) (commands : List Command) : Prop where
  length_le : commands.length ≤ limit
  kind_eq : ∀ made ∈ commands, made.kind = kind
  given : ∀ made ∈ commands, kind.needsArgument = true → made.argument.isSome = true

theorem isWaveOf_forEach {kind : CommandKind} {argument : Option String}
    (hgiven : kind.needsArgument = true → argument.isSome = true) :
    IsWaveOf kind targets.count (command.forEach targets kind argument) where
  length_le := Nat.le_of_eq (List.length_map _)
  kind_eq made hmade := by
    obtain ⟨node, _, rfl⟩ := List.mem_map.mp hmade
    rfl
  given made hmade := by
    obtain ⟨node, _, rfl⟩ := List.mem_map.mp hmade
    exact hgiven

theorem every_everywhere (notes : Log) (kind : CommandKind) (argument : Option String) :
    (command.everywhere targets notes kind argument).Every (IsWaveOf kind targets.count) := by
  by_cases hgiven : kind.needsArgument = true → (givenArgument argument).isSome = true
  · intro commands hcommands
    rw [(everywhere_of_given notes hgiven).waves, List.mem_singleton] at hcommands
    exact hcommands ▸ isWaveOf_forEach hgiven
  · obtain ⟨hneeds, hnone⟩ := Classical.not_imp.mp hgiven
    have hmissing := Option.not_isSome_iff_eq_none.mp hnone
    exact Plan.every_of_waves_eq_nil (everywhere_of_missing notes hneeds hmissing).waves

theorem every_addSource (path : String) (source : Source) :
    (command.addSource targets path source).Every
      (IsWaveOf .addData (command.settings.uploadsPerWave targets.count)) := by
  intro commands hcommands
  rw [(ends_addSource path source).waves_eq, sourceWaves, cutOpen, List.map_map] at hcommands
  obtain ⟨index, _, rfl⟩ := List.mem_map.mp hcommands
  refine ⟨?_, fun made hmade => ?_, fun made hmade _ => ?_⟩
  · rw [Function.comp_apply, uploadsOf, List.length_map]
    exact length_piece_le _ index
  all_goals
    obtain ⟨chunk, _, rfl⟩ := List.mem_map.mp hmade
    rfl

theorem every_deleteSource (path : String) (source : Source) :
    (command.deleteSource targets path source).Every (IsWaveOf .delete targets.count) := by
  intro commands hcommands
  rw [(ends_deleteSource path source).waves_eq] at hcommands
  obtain ⟨id, _, rfl⟩ := List.mem_map.mp hcommands
  exact isWaveOf_forEach fun _ => rfl

def IsWave (command : ClusterCommand) (count : Nat) (commands : List Command) : Prop :=
  match command.kind with
  | .uniform kind => IsWaveOf kind count commands
  | .addDir => IsWaveOf .addData (command.settings.uploadsPerWave count) commands
  | .updateDir => IsWaveOf .addData (command.settings.uploadsPerWave count) commands ∨
      IsWaveOf .delete count commands
  | .batchDelete => IsWaveOf .delete count commands

theorem every_forSources {holds : List Command → Prop} {tree : FileTree} {each : String → Plan}
    (heach : ∀ path, (each path).Every holds) : (command.forSources tree each).Every holds := by
  refine Plan.every_attempt fun paths _ => Plan.every_sequence fun plan hplan => ?_
  obtain ⟨path, _, rfl⟩ := List.mem_map.mp hplan
  exact heach path

theorem every_planFor (tree : FileTree) :
    (command.planFor tree targets).Every (command.IsWave targets.count) := by
  have hadd : ∀ path, (command.addFile tree targets path).Every
      (IsWaveOf .addData (command.settings.uploadsPerWave targets.count)) :=
    fun path => Plan.every_attempt fun source _ => every_addSource path source
  have hdelete : ∀ path, (command.deleteFile tree targets path).Every
      (IsWaveOf .delete targets.count) :=
    fun path => Plan.every_attempt fun source _ => every_deleteSource path source
  unfold planFor IsWave
  cases command.kind with
  | uniform kind => exact every_everywhere [] kind command.argument
  | addDir => exact every_forSources hadd
  | batchDelete => exact every_forSources hdelete
  | updateDir =>
      refine every_forSources fun path => Plan.Every.andThen ?_ ?_
      · exact fun commands hcommands => .inr (hdelete path commands hcommands)
      · exact fun commands hcommands => .inl (hadd path commands hcommands)

theorem plan_of_targets (command : ClusterCommand) (tree : FileTree) (targets : Targets)
    (htargets : command.database.targets command.target = .ok targets.nodes) :
    command.plan tree = (Plan.notes [.info
      s!"{command.title} resolved to {targets.count} node(s)"]).andThen
        (command.planFor tree targets) := by
  have hfound : Targets.ofList? targets.nodes = some targets := by
    simp [Targets.ofList?, targets.nonempty]
  simp only [plan, htargets, hfound]

theorem every_plan (tree : FileTree) {nodes : List Node}
    (htargets : command.database.targets command.target = .ok nodes) :
    (command.plan tree).Every (command.IsWave nodes.length) := by
  cases nodes with
  | nil => simp [plan, htargets, Targets.ofList?, Plan.Every]
  | cons node nodes =>
      let targets : Targets := ⟨node :: nodes, by simp⟩
      rw [command.plan_of_targets tree targets htargets]
      exact (Plan.every_notes _).andThen (every_planFor tree)

theorem isWave_of_mem_plan {tree : FileTree} {commands : List Command}
    (hcommands : commands ∈ (command.plan tree).waves) :
    ∃ count, command.IsWave count commands := by
  cases htargets : command.database.targets command.target with
  | error fault => simp [plan, htargets] at hcommands
  | ok nodes => exact ⟨nodes.length, every_plan tree htargets commands hcommands⟩

theorem isWaveOf_of_addDir {tree : FileTree} {commands : List Command}
    (hkind : command.kind = .addDir) (hcommands : commands ∈ (command.plan tree).waves) :
    ∃ limit, IsWaveOf .addData limit commands := by
  obtain ⟨count, hwave⟩ := isWave_of_mem_plan hcommands
  rw [IsWave, hkind] at hwave
  exact ⟨_, hwave⟩

-- A command for two servers, with one row in a chunk.
def forPair (kind : ClusterCommandKind) (argument : Option String) : ClusterCommand :=
  ⟨"all", kind, argument, .indexed Targets.pair.nodes, { maxLinesPerChunk := 1 }⟩

theorem targets_pair :
    (Database.indexed Targets.pair.nodes).targets "all" = .ok Targets.pair.nodes := by
  decide

theorem targets_forPair (kind : ClusterCommandKind) (argument : Option String) :
    (forPair kind argument).database.targets (forPair kind argument).target =
      .ok Targets.pair.nodes :=
  targets_pair

end ClusterCommand

end IndexFleet
