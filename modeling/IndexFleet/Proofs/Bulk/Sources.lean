import IndexFleet.Proofs.Execution.Outcome
import IndexFleet.Proofs.Plan.Bulk

namespace IndexFleet

namespace FileTree

variable {tree : FileTree} {path header : String} {rows : List String} {source : Source}

theorem read_eq_ok_iff {bytes : Text.Bytes} :
    tree.read path = .ok bytes ↔ tree.content path = .ok ⟨bytes, none⟩ := by
  unfold read
  cases hcontent : tree.content path with
  | error fault => simp [bind, Except.bind]
  | ok content =>
      obtain ⟨same, fault⟩ := content
      cases fault <;> simp [bind, Except.bind]

theorem ofFile_of_content {content : FileContent} (hcontent : tree.content path = .ok content) :
    Source.ofFile tree path = Source.ofContent path content := by
  rw [Source.ofFile, hcontent]

-- What stands in a file that can be taken in: a header that is not blank and the rows below it.
def Holds (tree : FileTree) (path header : String) (rows : List String) : Prop :=
  ∃ bytes, tree.read path = .ok bytes ∧ Source.headerOf? bytes = some header ∧
    Source.rowsBelow bytes = rows

theorem Holds.ofFile (h : tree.Holds path header rows) :
    ∃ source, (Source.ofFile tree path).1 = .ok source ∧ source.header = header ∧
      source.texts = rows ∧ source.fault = none := by
  obtain ⟨bytes, hread, hheader, hrows⟩ := h
  rw [ofFile_of_content (read_eq_ok_iff.mp hread), ← hrows]
  exact Source.ofBytes_of_header hheader

theorem holds_of_ofFile (hsource : (Source.ofFile tree path).1 = .ok source)
    (hwhole : source.fault = none) : tree.Holds path source.header source.texts := by
  cases hcontent : tree.content path with
  | error fault => simp [Source.ofFile, hcontent] at hsource
  | ok content =>
      obtain ⟨bytes, fault⟩ := content
      rw [ofFile_of_content hcontent] at hsource
      cases fault with
      | none => exact ⟨bytes, read_eq_ok_iff.mpr hcontent, Source.header_of_ofBytes hsource⟩
      | some fault => cases hwhole.symm.trans (Source.fault_of_ofLines hsource)

theorem Holds.isRow (h : tree.Holds path header rows) :
    Text.IsRow header ∧ ∀ row ∈ rows, Text.IsRow row := by
  obtain ⟨bytes, _, hheader, rfl⟩ := h
  exact ⟨Source.isRow_of_header hheader, fun _ => Source.isRow_of_mem_rowsBelow⟩

theorem ne_empty_of_read {bytes : Text.Bytes} (hread : tree.read path = .ok bytes) :
    path ≠ "" := by
  rintro rfl
  simp [read, content, find, locate, bind, Except.bind] at hread

-- A file and nothing else.
def single (content : FileContent) : FileTree := ⟨[(["rows"], .file content)], []⟩

theorem find_single (content : FileContent) :
    (single content).find "rows" = .ok (["rows"], .file content) := by
  have hsteps : steps "rows" = ["rows"] := by decide
  have hsize : ¬maxPath ≤ "rows".utf8ByteSize := by decide
  have hname : ¬maxName < "rows".utf8ByteSize := by decide
  have hlocate : (single content).locate "rows" = .ok ["rows"] := by
    rw [locate, hsteps]
    simp [walk, isAbsolute, hsize, hname, entry?, single, current]
  simp only [find, hlocate, bind, Except.bind]
  rfl

theorem inputFiles_single (content : FileContent) :
    (single content).inputFiles "rows" = (.ok ["rows"], []) := by
  rw [inputFiles, find_single]

theorem content_single (content : FileContent) :
    (single content).content "rows" = .ok content := by
  rw [FileTree.content, find_single]
  rfl

-- Two rows of one column: id, 1, 2.
def twoRows : FileTree := single ⟨[105, 100, 10, 49, 10, 50, 10], none⟩

theorem read_twoRows : twoRows.read "rows" = .ok [105, 100, 10, 49, 10, 50, 10] :=
  read_eq_ok_iff.mpr (content_single _)

theorem holds_twoRows : twoRows.Holds "rows" "id" ["1", "2"] :=
  ⟨[105, 100, 10, 49, 10, 50, 10], read_twoRows, rfl, rfl⟩

-- Two rows of two columns: id and name, 1 and x, 2 and y.
def namedRows : Text.Bytes :=
  [105, 100, 9, 110, 97, 109, 101, 10, 49, 9, 120, 10, 50, 9, 121, 10]

theorem holds_namedRows :
    (single ⟨namedRows, none⟩).Holds "rows" "id\tname" ["1\tx", "2\ty"] :=
  ⟨namedRows, read_eq_ok_iff.mpr (content_single _), rfl, rfl⟩

-- Three rows, the second one without an id: 1 and x, nothing and y, 2 and z.
def unnamedRow : Text.Bytes :=
  [105, 100, 9, 110, 97, 109, 101, 10, 49, 9, 120, 10, 9, 121, 10, 50, 9, 122, 10]

theorem holds_unnamedRow :
    (single ⟨unnamedRow, none⟩).Holds "rows" "id\tname" ["1\tx", "\ty", "2\tz"] :=
  ⟨unnamedRow, read_eq_ok_iff.mpr (content_single _), rfl, rfl⟩

-- The named rows can be read, but not what may stand behind them.
theorem ofFile_brokenRows : Source.ofFile (single ⟨namedRows, some .broken⟩) "rows" =
    (.ok ⟨"rows", "id\tname", [("1\tx", []), ("2\ty", [])], [], some .broken⟩, []) := by
  rw [ofFile_of_content (content_single _)]
  rfl

end FileTree

-- What can be wrong with a source that is there: it is empty, or it cannot be read.
def Failure.isOfSource : Failure → Bool
  | emptySource _ | io _ => true
  | _ => false

theorem Source.isOfSource_of_ofFile {tree : FileTree} {path : String} {failure : Failure}
    (hfailure : (ofFile tree path).1 = .error failure) : failure.isOfSource = true := by
  have hlines : ∀ {fault : Option FileFault} {lines : List Text.Bytes},
      (ofLines path fault lines).1 = .error failure → failure.isOfSource = true := by
    intro fault lines hfailure
    unfold ofLines at hfailure
    dsimp only at hfailure
    repeat' split at hfailure
    all_goals cases hfailure
    all_goals rfl
  unfold ofFile at hfailure
  split at hfailure
  case h_1 content hcontent =>
      unfold ofContent at hfailure
      split at hfailure <;> exact hlines hfailure
  case h_2 => exact Except.error.inj hfailure ▸ rfl

theorem FileTree.failure_of_inputFiles {tree : FileTree} {path : String} {failure : Failure}
    (hfailure : (tree.inputFiles path).1 = .error failure) :
    failure = .noInputFiles path ∨ ∃ reason, failure = .io reason := by
  unfold inputFiles at hfailure
  dsimp only at hfailure
  repeat' split at hfailure
  all_goals cases hfailure
  all_goals first | exact .inl rfl | exact .inr ⟨_, rfl⟩

theorem FileTree.told_of_inputFiles {tree : FileTree} {path : String} {paths : List String}
    (hpaths : (tree.inputFiles path).1 = .ok paths) : (tree.inputFiles path).2 = [] := by
  cases hfound : tree.find path with
  | error fault => simp [inputFiles, hfound] at hpaths
  | ok found =>
      obtain ⟨location, entry⟩ := found
      cases entry with
      | file data => simp [inputFiles, hfound]
      | directory =>
          simp only [inputFiles, hfound]
          split <;> rfl
      | link target => simp [inputFiles, hfound] at hpaths
      | device => simp [inputFiles, hfound] at hpaths

abbrev Table := String × List String

namespace ClusterCommand

-- An addDir whose targets are found and whose sources can be taken in.
structure IsReady (command : ClusterCommand) (tree : FileTree) (targets : Targets)
    (contents : List Table) : Prop where
  kind : command.kind = .addDir
  targets : command.database.targets command.target = .ok targets.nodes
  lines : 0 < command.settings.maxLinesPerChunk
  contents : ∃ paths, (tree.inputFiles (command.argument.getD "")).1 = .ok paths ∧
    List.Forall₂ (fun path content => tree.Holds path content.1 content.2) paths contents

variable {command : ClusterCommand} {tree : FileTree} {targets : Targets}
  {contents : List Table}

theorem ends_plan_of_addDir {path : String} {source : Source} (hkind : command.kind = .addDir)
    (htargets : command.database.targets command.target = .ok targets.nodes)
    (hpath : (tree.inputFiles (command.argument.getD "")).1 = .ok [path])
    (hsource : (Source.ofFile tree path).1 = .ok source) :
    (command.plan tree).Ends
      (command.sourceWaves targets source.header
        (source.rowsInChunks command.settings.maxLinesPerChunk))
      (source.failureAt command.settings.maxLinesPerChunk) := by
  rw [command.plan_of_targets tree targets htargets, planFor, hkind]
  refine (Plan.makes_notes _).andThen_ends (Plan.ends_attempt hpath ?_)
  rw [List.map_singleton, Plan.sequence_cons, Plan.sequence_nil, Plan.andThen_done]
  exact Plan.ends_attempt hsource (ends_addSource path source)

theorem isRow_of_holds {paths : List String} (hcontents : List.Forall₂
      (fun path (content : Table) => tree.Holds path content.1 content.2) paths contents) :
    ∀ content ∈ contents, Text.IsRow content.1 ∧ ∀ row ∈ content.2, Text.IsRow row := by
  induction hcontents with
  | nil => exact fun _ hcontent => nomatch hcontent
  | cons hholds _ ih => exact List.forall_mem_cons.mpr ⟨hholds.isRow, ih⟩

theorem IsReady.isRow (hready : command.IsReady tree targets contents) :
    ∀ content ∈ contents, Text.IsRow content.1 ∧ ∀ row ∈ content.2, Text.IsRow row := by
  obtain ⟨_, _, _, _, _, hcontents⟩ := hready
  exact isRow_of_holds hcontents

theorem isReady_twoRows :
    (forPair .addDir (some "rows")).IsReady .twoRows .pair [("id", ["1", "2"])] where
  kind := rfl
  targets := targets_forPair .addDir (some "rows")
  lines := by decide
  contents := ⟨["rows"], congrArg Prod.fst (FileTree.inputFiles_single _),
    .cons FileTree.holds_twoRows .nil⟩

theorem isReady_namedRows :
    (forPair .addDir (some "rows")).IsReady (.single ⟨FileTree.namedRows, none⟩) .pair
      [("id\tname", ["1\tx", "2\ty"])] where
  kind := rfl
  targets := targets_forPair .addDir (some "rows")
  lines := by decide
  contents := ⟨["rows"], congrArg Prod.fst (FileTree.inputFiles_single _),
    .cons FileTree.holds_namedRows .nil⟩

-- A row in a chunk of its own, and behind the last one the source breaks off.
theorem ends_brokenRows :
    ((forPair .addDir (some "rows")).plan (.single ⟨FileTree.namedRows, some .broken⟩)).Ends
      ((forPair .addDir (some "rows")).sourceWaves .pair "id\tname" ["1\tx", "2\ty"])
      (some (.io FileFault.broken.message)) := by
  let source : Source :=
    ⟨"rows", "id\tname", [("1\tx", []), ("2\ty", [])], [], some .broken⟩
  have hsource : (Source.ofFile (.single ⟨FileTree.namedRows, some .broken⟩) "rows").1 =
      .ok source := congrArg Prod.fst FileTree.ofFile_brokenRows
  have hends : ((forPair .addDir (some "rows")).plan
      (.single ⟨FileTree.namedRows, some .broken⟩)).Ends
      ((forPair .addDir (some "rows")).sourceWaves .pair source.header (source.rowsInChunks 1))
      (source.failureAt 1) :=
    ends_plan_of_addDir rfl (targets_forPair _ _)
      (congrArg Prod.fst (FileTree.inputFiles_single _)) hsource
  have hrows : source.rowsInChunks 1 = ["1\tx", "2\ty"] := by decide
  have hfailure : source.failureAt 1 = some (.io FileFault.broken.message) := rfl
  rwa [hrows, hfailure] at hends

end ClusterCommand

end IndexFleet
